import Letterpress.Css.Sheet
import Letterpress.Proofs.Css.Seam

/-!
# Sheets of whole rules

A sheet of complete style rules, comments and blanks, each rule with all its brackets closed, is
read rule by rule (`rawRules_sheet`), so that two such sheets, one behind the other, have the rules of
the first and then those of the second (`styleRules_append`). That holds if no name spells a bracket
or a semicolon by an escape and no selector begins with a function: these throw the count of open
brackets out, and a rule goes on to the end of the sheet.
-/

namespace Letterpress.Css

open Letterpress.Text

/-! ## Brackets -/

/-- The characters that open and close brackets. -/
def bracketMarks : List Char := ['\x7b', '\x7d', '[', ']', '(', ')']

/-- The token is one of these characters, or reads as one. -/
def Token.readsAs (t : Token) (marks : List Char) : Bool := marks.any t.isChar

/-- The character that closes the bracket that a token opens, if it opens one. -/
def Token.closer? (t : Token) : Option Char :=
  if t.kind = .call then some ')'
  else if t = ⟨.char, ['\x7b']⟩ then some '\x7d'
  else if t = ⟨.char, ['[']⟩ then some ']'
  else if t = ⟨.char, ['(']⟩ then some ')'
  else none

/-- A token that is no bracket and does not end the sheet. -/
structure Token.IsInner (t : Token) : Prop where
  opens : t.closer? = none
  closes : ∀ c, c = '\x7d' ∨ c = ']' ∨ c = ')' → t ≠ ⟨.char, [c]⟩
  goes_on : t.kind ≠ .finish

instance (t : Token) : Decidable t.IsInner :=
  decidable_of_iff
    (t.closer? = none ∧ (∀ c ∈ ['\x7d', ']', ')'], t ≠ ⟨.char, [c]⟩) ∧ t.kind ≠ .finish)
    ⟨fun h => ⟨h.1, fun c hc => h.2.1 c (by simpa using hc), h.2.2⟩,
      fun h => ⟨h.opens, fun c hc => h.closes c (by simpa using hc), h.goes_on⟩⟩

/-- All brackets are closed, one within the other. -/
inductive Balanced : List Token → Prop
  | nil : Balanced []
  | token {t : Token} {l : List Token} : t.IsInner → Balanced l → Balanced (t :: l)
  | bracket {t : Token} {c : Char} {inner l : List Token} : t.closer? = some c →
      Balanced inner → Balanced l → Balanced (t :: (inner ++ ⟨.char, [c]⟩ :: l))

/-- All brackets are closed, and outside them stand neither braces nor semicolons. -/
inductive IsPrelude : List Token → Prop
  | nil : IsPrelude []
  | token {t : Token} {l : List Token} : t.IsInner → t ≠ ⟨.char, [';']⟩ → IsPrelude l →
      IsPrelude (t :: l)
  | bracket {t : Token} {c : Char} {inner l : List Token} : t.closer? = some c → c ≠ '\x7d' →
      Balanced inner → IsPrelude l → IsPrelude (t :: (inner ++ ⟨.char, [c]⟩ :: l))

theorem Balanced.of_inner {l : List Token} (h : ∀ t ∈ l, t.IsInner) : Balanced l := by
  induction l with
  | nil => exact .nil
  | cons t l ih => exact .token (h t (by simp)) (ih fun u hu => h u (by simp [hu]))

theorem IsPrelude.of_inner {l : List Token} (h : ∀ t ∈ l, t.IsInner ∧ t ≠ ⟨.char, [';']⟩) :
    IsPrelude l := by
  induction l with
  | nil => exact .nil
  | cons t l ih =>
    exact .token (h t (by simp)).1 (h t (by simp)).2 (ih fun u hu => h u (by simp [hu]))

/-! ## Rules -/

/-- A style rule in tokens: what stands before its braces and what stands between them. -/
structure WholeRule where
  selector : List Token
  body : List Token
deriving DecidableEq

namespace WholeRule

/-- The tokens of a rule but for its last brace. -/
def front (rule : WholeRule) : List Token := rule.selector ++ ⟨.char, ['\x7b']⟩ :: rule.body

/-- The tokens of a rule. -/
def tokens (rule : WholeRule) : List Token := rule.front ++ [⟨.char, ['\x7d']⟩]

/-- The rule is complete, and it is a style rule: it begins neither with a keyword nor with what is
passed over between rules. -/
structure IsComplete (rule : WholeRule) : Prop where
  prelude : IsPrelude rule.selector
  balanced : Balanced rule.body
  start : ∀ t ∈ rule.selector.head?,
    t.kind ∉ [.space, .comment, .commentOpen, .commentClose, .atKeyword]

/-- No name reads as a bracket or, in the selector, as a semicolon, and the selector does not begin
with a function. -/
structure IsPlain (rule : WholeRule) : Prop where
  brackets : ∀ t ∈ rule.selector ++ rule.body, t.readsAs bracketMarks = true → t.kind = .char
  semicolons : ∀ t ∈ rule.selector, t.isChar ';' = true → t.kind = .char
  start : ∀ t ∈ rule.selector.head?, t.kind ≠ .call

end WholeRule

/-- A text of complete style rules, comments and blanks. -/
inductive IsSheet : List Char → List WholeRule → Prop
  | nil : IsSheet [] []
  | blank {c : Char} {l : List Char} {rules : List WholeRule} :
      isSpace c = true → IsSheet l rules → IsSheet (c :: l) rules
  | comment {inner l : List Char} {rules : List WholeRule} :
      occurs "*/".toList inner = false → IsSheet l rules →
        IsSheet ("/*".toList ++ inner ++ "*/".toList ++ l) rules
  | rule {text l : List Char} {rule : WholeRule} {rules : List WholeRule} :
      Closed text → tokensOf text = rule.tokens ++ [⟨.finish, []⟩] → rule.IsComplete →
        IsSheet l rules → IsSheet (text ++ l) (rule :: rules)

theorem IsSheet.append {l l' : List Char} {rules rules' : List WholeRule} (h : IsSheet l rules)
    (h' : IsSheet l' rules') : IsSheet (l ++ l') (rules ++ rules') := by
  induction h with
  | nil => exact h'
  | blank hc _ ih => exact .blank hc ih
  | comment hinner _ ih =>
    rw [List.append_assoc]
    exact .comment hinner ih
  | rule hclosed htokens hcomplete _ ih =>
    rw [List.append_assoc]
    exact .rule hclosed htokens hcomplete ih

/-- A rule is complete if all tokens but those around its declarations are no brackets. -/
theorem WholeRule.IsComplete.of_inner {rule : WholeRule}
    (hselector : ∀ t ∈ rule.selector, t.IsInner ∧ t ≠ ⟨.char, [';']⟩)
    (hbody : ∀ t ∈ rule.body, t.IsInner)
    (hstart : ∀ t ∈ rule.selector.head?,
      t.kind ∉ [.space, .comment, .commentOpen, .commentClose, .atKeyword]) : rule.IsComplete :=
  ⟨.of_inner hselector, .of_inner hbody, hstart⟩

theorem IsSheet.single {text : List Char} {rule : WholeRule} (front : List Char)
    (hclosed : text = front ++ ['\x7d']) (htokens : tokensOf text = rule.tokens ++ [⟨.finish, []⟩])
    (hrule : rule.IsComplete) : IsSheet text [rule] := by
  have h := IsSheet.rule ⟨front, hclosed⟩ htokens hrule .nil
  rwa [List.append_nil] at h

/-! ## Counting brackets -/

namespace Depth

/-- The depth with so many more brackets open that the character closes. -/
def add (c : Char) (n : Int) (d : Depth) : Depth :=
  match c with
  | '\x7d' => { d with braces := d.braces + n }
  | ']' => { d with brackets := d.brackets + n }
  | ')' => { d with parens := d.parens + n }
  | _ => d

/-- Something is open, and nothing was closed that was not. -/
structure Inside (d : Depth) : Prop where
  braces : 0 ≤ d.braces
  brackets : 0 ≤ d.brackets
  parens : 0 ≤ d.parens
  deep : 0 < d.braces + d.brackets + d.parens

theorem Inside.not_isLevel {d : Depth} (h : d.Inside) : d.isLevel = false := by
  have := h.deep
  rw [← Bool.not_eq_true, isLevel]
  simp only [Bool.and_eq_true, beq_iff_eq]
  omega

/-- The characters that close brackets. -/
abbrev IsCloser (c : Char) : Prop := c = '\x7d' ∨ c = ']' ∨ c = ')'

theorem add_add {c : Char} (d : Depth) : (d.add c 1).add c (-1) = d := by
  unfold add
  split <;> simp only [Int.add_neg_cancel_right]

theorem Inside.add {d : Depth} {c : Char} (h : d.Inside ∨ d = {}) (hc : IsCloser c) :
    (d.add c 1).Inside := by
  have hcount : 0 ≤ d.braces ∧ 0 ≤ d.brackets ∧ 0 ≤ d.parens := by
    rcases h with h | rfl
    · exact ⟨h.braces, h.brackets, h.parens⟩
    · simp
  rcases hc with rfl | rfl | rfl <;> constructor <;> simp only [Depth.add] <;> omega

end Depth

open Depth

section

variable {t : Token} {c : Char} {d : Depth}

theorem closer?_eq_some (h : t.closer? = some c) :
    (t.kind = .call ∧ c = ')') ∨ (t = ⟨.char, ['\x7b']⟩ ∧ c = '\x7d') ∨
      (t = ⟨.char, ['[']⟩ ∧ c = ']') ∨ (t = ⟨.char, ['(']⟩ ∧ c = ')') := by
  unfold Token.closer? at h
  split at h
  · rename_i hcall
    exact .inl ⟨hcall, (Option.some.inj h).symm⟩
  split at h
  · rename_i heq
    exact .inr (.inl ⟨heq, (Option.some.inj h).symm⟩)
  split at h
  · rename_i heq
    exact .inr (.inr (.inl ⟨heq, (Option.some.inj h).symm⟩))
  split at h
  · rename_i heq
    exact .inr (.inr (.inr ⟨heq, (Option.some.inj h).symm⟩))
  · cases h

theorem isCloser_of_closer? (h : t.closer? = some c) : IsCloser c := by
  rcases closer?_eq_some h with ⟨-, rfl⟩ | ⟨-, rfl⟩ | ⟨-, rfl⟩ | ⟨-, rfl⟩ <;> simp [IsCloser]

theorem ne_finish_of_closer? (h : t.closer? = some c) : t.kind ≠ .finish := by
  rcases closer?_eq_some h with ⟨hkind, -⟩ | ⟨rfl, -⟩ | ⟨rfl, -⟩ | ⟨rfl, -⟩
  · rw [hkind]
    simp
  all_goals simp

theorem step_closer (hc : IsCloser c) : d.step ⟨.char, [c]⟩ = d.add c (-1) := by
  rcases hc with rfl | rfl | rfl <;> rfl

theorem text_ne_of_not_readsAs (h : t.readsAs bracketMarks = false) {m : Char}
    (hm : m ∈ bracketMarks) : t.text ≠ [m] := by
  intro htext
  have hnot := List.any_eq_false.mp h m hm
  simp [Token.isChar, htext] at hnot

theorem opening_of_not_readsAs (h : t.readsAs bracketMarks = false) : d.opening t = d := by
  have htext {m : Char} : m ∈ bracketMarks → t.text ≠ [m] := text_ne_of_not_readsAs h
  unfold opening
  split
  · exact absurd ‹_› (htext (by decide))
  · exact absurd ‹_› (htext (by decide))
  · exact absurd ‹_› (htext (by decide))
  · rfl

/-- A token that reads as no bracket counts if it opens the bracket of a function. -/
theorem step_of_not_readsAs (h : t.readsAs bracketMarks = false) :
    d.step t = if t.kind = .call then d.add ')' 1 else d := by
  have htext {m : Char} : m ∈ bracketMarks → t.text ≠ [m] := text_ne_of_not_readsAs h
  unfold step
  split
  · exact absurd ‹_› (htext (by decide))
  · exact absurd ‹_› (htext (by decide))
  · exact absurd ‹_› (htext (by decide))
  · rw [opening_of_not_readsAs h]
    rfl

theorem step_opener (h : t.closer? = some c)
    (hplain : t.readsAs bracketMarks = true → t.kind = .char) : d.step t = d.add c 1 := by
  rcases closer?_eq_some h with ⟨hcall, rfl⟩ | ⟨rfl, rfl⟩ | ⟨rfl, rfl⟩ | ⟨rfl, rfl⟩
  · have hreads : t.readsAs bracketMarks = false := by
      rw [← Bool.not_eq_true]
      intro hreads
      rw [hplain hreads] at hcall
      cases hcall
    rw [step_of_not_readsAs hreads, if_pos hcall]
  all_goals rfl

/-- A token that reads as a character and is one. -/
theorem eq_of_isChar {m : Char} (htext : t.isChar m = true) (hkind : t.kind = .char) :
    t = ⟨.char, [m]⟩ := by
  obtain ⟨kind, text⟩ := t
  obtain rfl : kind = .char := hkind
  obtain rfl : text = [m] := by simpa [Token.isChar] using htext
  rfl

theorem Token.IsInner.not_readsAs (h : t.IsInner)
    (hplain : t.readsAs bracketMarks = true → t.kind = .char) : t.readsAs bracketMarks = false := by
  rw [← Bool.not_eq_true]
  intro hreads
  obtain ⟨m, hm, htext⟩ := List.any_eq_true.mp hreads
  obtain rfl := eq_of_isChar htext (hplain hreads)
  have hopens := h.opens
  have hcloses := h.closes m
  revert hopens hcloses
  simp only [bracketMarks, List.mem_cons, List.not_mem_nil, or_false] at hm
  rcases hm with rfl | rfl | rfl | rfl | rfl | rfl <;> simp [Token.closer?]

theorem Token.IsInner.ne_call (h : t.IsInner) : t.kind ≠ .call := by
  intro hcall
  have hopens := h.opens
  rw [Token.closer?, if_pos hcall] at hopens
  cases hopens

theorem step_inner (h : t.IsInner) (hplain : t.readsAs bracketMarks = true → t.kind = .char) :
    d.step t = d := by
  rw [step_of_not_readsAs (h.not_readsAs hplain), if_neg h.ne_call]

end

/-! ## Spans -/

section

variable {t : Token} {l more : List Token} {ends : List Char} {d : Depth}

/-- A span goes on behind a token that does not end it. -/
theorem span_goes_on (hkind : t.kind ≠ .finish)
    (hends : ((d.step t).isLevel && (ends.any fun c => t.isChar c)) = false) :
    span ends d (t :: l) = (t :: (span ends (d.step t) l).1, (span ends (d.step t) l).2) := by
  rw [span, if_neg hkind]
  simp only [hends, Bool.false_eq_true, if_false]

/-- Within brackets a span passes over brackets that are closed. -/
theorem span_balanced (hl : Balanced l)
    (hplain : ∀ t ∈ l, t.readsAs bracketMarks = true → t.kind = .char) (hd : d.Inside) :
    span ends d (l ++ more) = (l ++ (span ends d more).1, (span ends d more).2) := by
  induction hl generalizing d more with
  | nil => rfl
  | @token t l hinner _ ih =>
    have hstep := step_inner (d := d) hinner (hplain t (by simp))
    rw [List.cons_append, span_goes_on hinner.goes_on (by rw [hstep, hd.not_isLevel]; rfl), hstep,
      ih (fun u hu => hplain u (by simp [hu])) hd]
    rfl
  | @bracket t c inner l hcloser _ _ ihinner ihl =>
    have hc := isCloser_of_closer? hcloser
    have hstep := step_opener (d := d) hcloser (hplain t (by simp))
    have hdeep : (d.add c 1).Inside := .add (.inl hd) hc
    have hback : (d.add c 1).step ⟨.char, [c]⟩ = d := by rw [step_closer hc, add_add]
    rw [List.cons_append, span_goes_on (ne_finish_of_closer? hcloser)
        (by rw [hstep, hdeep.not_isLevel]; rfl), hstep, List.append_assoc,
      ihinner (fun u hu => hplain u (by simp [hu])) hdeep, List.cons_append,
      span_goes_on (by simp) (by rw [hback, hd.not_isLevel]; rfl), hback,
      ihl (fun u hu => hplain u (by simp [hu])) hd]
    simp

/-- The characters that end a rule. -/
abbrev ruleEnds : List Char := [';', '\x7d']

/-- A selector does not end the span of its rule. -/
theorem span_prelude (hl : IsPrelude l)
    (hplain : ∀ t ∈ l, t.readsAs bracketMarks = true → t.kind = .char)
    (hsemicolon : ∀ t ∈ l, t.isChar ';' = true → t.kind = .char) :
    span ruleEnds {} (l ++ more) = (l ++ (span ruleEnds {} more).1, (span ruleEnds {} more).2) := by
  induction hl generalizing more with
  | nil => rfl
  | @token t l hinner hne _ ih =>
    have hstep := step_inner (d := {}) hinner (hplain t (by simp))
    have hgoes : (ruleEnds.any fun c => t.isChar c) = false := by
      rw [← Bool.not_eq_true]
      intro hend
      obtain ⟨m, hm, htext⟩ := List.any_eq_true.mp hend
      rcases (by simpa using hm : m = ';' ∨ m = '\x7d') with rfl | rfl
      · exact hne (eq_of_isChar htext (hsemicolon t (by simp) htext))
      · have hreads : t.readsAs bracketMarks = true :=
          List.any_eq_true.mpr ⟨'\x7d', by decide, htext⟩
        rw [hinner.not_readsAs (hplain t (by simp))] at hreads
        cases hreads
    rw [List.cons_append, span_goes_on hinner.goes_on (by rw [hgoes, Bool.and_false]), hstep,
      ih (fun u hu => hplain u (by simp [hu])) fun u hu => hsemicolon u (by simp [hu])]
    rfl
  | @bracket t c inner l hcloser hne hbalanced _ ih =>
    have hc := isCloser_of_closer? hcloser
    have hstep := step_opener (d := {}) hcloser (hplain t (by simp))
    have hdeep : (({} : Depth).add c 1).Inside := .add (.inr rfl) hc
    have hback : (({} : Depth).add c 1).step ⟨.char, [c]⟩ = {} := by rw [step_closer hc, add_add]
    have hgoes : (ruleEnds.any fun m => (Token.mk .char [c]).isChar m) = false := by
      rcases hc with rfl | rfl | rfl
      · exact absurd rfl hne
      · rfl
      · rfl
    rw [List.cons_append, span_goes_on (ne_finish_of_closer? hcloser)
        (by rw [hstep, hdeep.not_isLevel]; rfl), hstep, List.append_assoc,
      span_balanced hbalanced (fun u hu => hplain u (by simp [hu])) hdeep, List.cons_append,
      span_goes_on (by simp) (by rw [hgoes, Bool.and_false]), hback,
      ih (fun u hu => hplain u (by simp [hu])) fun u hu => hsemicolon u (by simp [hu])]
    simp

namespace WholeRule

variable {rule : WholeRule}

/-- The span of a rule ends with its last brace. -/
theorem span_tokens (hrule : rule.IsComplete) (hplain : rule.IsPlain) (more : List Token) :
    span ruleEnds {} (rule.tokens ++ more) = (rule.tokens, more) := by
  have hinside : ({ braces := 1 } : Depth).Inside := ⟨by decide, by decide, by decide, by decide⟩
  have hlast : span ruleEnds { braces := 1 } (⟨.char, ['\x7d']⟩ :: more) =
      ([⟨.char, ['\x7d']⟩], more) := rfl
  have hbody : span ruleEnds {} (⟨.char, ['\x7b']⟩ :: (rule.body ++ ⟨.char, ['\x7d']⟩ :: more)) =
      (⟨.char, ['\x7b']⟩ :: (rule.body ++ [⟨.char, ['\x7d']⟩]), more) := by
    have hstep : ({} : Depth).step ⟨.char, ['\x7b']⟩ = { braces := 1 } := rfl
    rw [span_goes_on (by simp) rfl, hstep, span_balanced hrule.balanced
      (fun t ht => hplain.brackets t (List.mem_append_right _ ht)) hinside, hlast]
  have hwhole : span ruleEnds {}
      (rule.selector ++ ⟨.char, ['\x7b']⟩ :: (rule.body ++ ⟨.char, ['\x7d']⟩ :: more)) = _ :=
    span_prelude hrule.prelude (fun t ht => hplain.brackets t (List.mem_append_left _ ht))
      hplain.semicolons
  rw [hbody] at hwhole
  simpa [tokens, front] using hwhole

/-- The first token of a rule. -/
theorem exists_tokens_cons (hrule : rule.IsComplete) (hplain : rule.IsPlain) :
    ∃ t u rest, rule.tokens = t :: u :: rest ∧ Depth.opening t {} = Depth.step t {} ∧
      t.kind ∉ [.finish, .space, .comment, .commentOpen, .commentClose, .atKeyword] := by
  obtain ⟨selector, body⟩ := rule
  have hstart := hrule.start
  have hcall := hplain.start
  have hbrackets := hplain.brackets
  cases hselector : selector with
  | nil =>
    cases body with
    | nil => exact ⟨_, _, _, rfl, rfl, by decide⟩
    | cons u body => exact ⟨_, _, _, rfl, rfl, by decide⟩
  | cons t l =>
    have hprelude := hrule.prelude
    simp only [hselector, List.head?_cons, Option.mem_some_iff, forall_eq']
      at hstart hcall hprelude hbrackets
    have hcons : ∃ u rest, WholeRule.tokens ⟨t :: l, body⟩ = t :: u :: rest := by
      cases l with
      | nil => exact ⟨_, _, rfl⟩
      | cons u l => exact ⟨_, _, rfl⟩
    obtain ⟨u, rest, heq⟩ := hcons
    refine ⟨t, u, rest, heq, ?_⟩
    have hgoes : t.kind ≠ .finish ∧ Depth.opening t {} = Depth.step t {} := by
      cases hprelude with
      | token hinner =>
        refine ⟨hinner.goes_on, ?_⟩
        have hplain := hbrackets t (by simp)
        rw [opening_of_not_readsAs (hinner.not_readsAs hplain), step_inner hinner hplain]
      | bracket hcloser =>
        refine ⟨ne_finish_of_closer? hcloser, ?_⟩
        rcases closer?_eq_some hcloser with ⟨hkind, -⟩ | ⟨rfl, -⟩ | ⟨rfl, -⟩ | ⟨rfl, -⟩
        · exact absurd hkind hcall
        all_goals rfl
    refine ⟨hgoes.2, ?_⟩
    rw [List.mem_cons, not_or]
    exact ⟨hgoes.1, hstart⟩

/-- A rule is cut off whole. -/
theorem spanFrom_tokens (hrule : rule.IsComplete) (hplain : rule.IsPlain) {t : Token}
    {rest : List Token} (htokens : rule.tokens = t :: rest) (more : List Token) :
    spanFrom t ruleEnds (rest ++ more) = (rule.tokens, more) := by
  obtain ⟨t', u, rest', heq, hopening, hkind⟩ := exists_tokens_cons hrule hplain
  rw [htokens] at heq
  obtain ⟨rfl, rfl⟩ := List.cons.inj heq
  rw [List.mem_cons, not_or] at hkind
  have hwhole := span_tokens hrule hplain more
  rw [htokens, List.cons_append] at hwhole
  cases hends : (Depth.step t {}).isLevel && ruleEnds.any fun c => t.isChar c with
  | true =>
    -- the first token is not all
    rw [span, if_neg hkind.1] at hwhole
    simp only [hends, if_true] at hwhole
    cases hwhole
  | false =>
    rw [span_goes_on hkind.1 hends] at hwhole
    obtain ⟨htaken, hmore⟩ := Prod.mk.inj hwhole
    rw [spanFrom, hopening, htokens]
    exact Prod.ext htaken hmore

end WholeRule

/-! ## Rules in turn -/

theorem rawRules_blank (stage : Stage) (spaces : Namespaces) {t : Token}
    (h : t.kind = .space ∨ t.kind = .comment) (l : List Token) :
    rawRules stage spaces (t :: l) =
      rawRules (if stage = .start then .front else stage) spaces l := by
  rw [rawRules]
  rcases h with h | h <;> simp only [h]

theorem rawRules_rule (stage : Stage) (spaces : Namespaces) {rule : WholeRule}
    (hrule : rule.IsComplete) (hplain : rule.IsPlain) (more : List Token) :
    rawRules stage spaces (rule.tokens ++ more) =
      ((rule? spaces rule.tokens).toList ++ (rawRules .rules spaces more).1,
        (rawRules .rules spaces more).2) := by
  obtain ⟨t, u, rest, htokens, -, hkind⟩ := rule.exists_tokens_cons hrule hplain
  have hspan := rule.spanFrom_tokens hrule hplain htokens more
  have hshort : more.length < (u :: rest ++ more).length + 1 := by simp; omega
  rw [htokens] at hspan ⊢
  rw [List.cons_append, rawRules]
  simp only [hspan, hshort, if_true]
  cases hother : t.kind with
  | finish | space | comment | commentOpen | commentClose | atKeyword =>
    rw [hother] at hkind
    exact absurd (by decide) hkind
  | _ => rfl

end

/-! ## Sheets -/

theorem tokensOf_blank_cons {c : Char} (hc : isSpace c = true) (l : List Char) :
    tokensOf (c :: l) = ⟨.space, c :: l.takeWhile isSpace⟩ :: tokensOf (l.dropWhile isSpace) := by
  have hnext : next c l = (⟨.space, c :: l.takeWhile isSpace⟩, l.dropWhile isSpace) := by
    rw [next, if_pos hc, List.takeWhile_cons_of_pos hc, List.dropWhile_cons_of_pos hc]
  exact tokensOf_cons hnext (Nat.lt_succ_of_le (List.dropWhile_sublist _).length_le)

/-- A slash begins nothing but a comment. -/
theorem next_slash (l : List Char) : next '/' l = plainToken '/' l := by
  have haddress : address? ('/' :: l) = none := by
    rw [Option.eq_none_iff_forall_ne_some]
    intro found h
    obtain ⟨u, r, e, rest, heq, hname⟩ := beginsAddress_of_address? h
    rw [← (List.cons.inj heq).1] at hname
    cases hname
  have hrange : unicodeRange? ('/' :: l) = none := by
    unfold unicodeRange?
    split
    · rename_i heq
      rw [← (List.cons.inj heq).1]
      rfl
    · rfl
  have hident : ident? ('/' :: l) = none := by
    rw [ident?_eq (rfl : ('/' :: l).drop (leadingHyphens ('/' :: l)).length = '/' :: l),
      escape?_of_ne (by decide) l]
    rfl
  rw [next_eq (by decide) (by decide), haddress]
  simp only [namedToken, hrange, hident]
  rfl

theorem tokensOf_comment {inner : List Char} (h : occurs "*/".toList inner = false) (l : List Char) :
    tokensOf ("/*".toList ++ inner ++ "*/".toList ++ l) =
      ⟨.comment, "/*".toList ++ inner ++ "*/".toList⟩ :: tokensOf l := by
  have hcut : cutAt? "*/".toList (inner ++ ("*/".toList ++ l)) = some (inner, l) :=
    cutAt?_of_not_occurs (m := "*".toList) (e := '/') (by decide) h l
  have hnext : next '/' ('*' :: (inner ++ ("*/".toList ++ l))) =
      (⟨.comment, "/*".toList ++ inner ++ "*/".toList⟩, l) := by
    have hopen : after? "/*".toList ('/' :: '*' :: (inner ++ ("*/".toList ++ l))) =
        some (inner ++ ("*/".toList ++ l)) := after?_append "/*".toList _
    have hnumber : number? ('/' :: '*' :: (inner ++ ("*/".toList ++ l))) = none := rfl
    rw [next_slash, plainToken, hnumber, hopen]
    simp only [hcut]
  rw [List.append_assoc, List.append_assoc]
  exact tokensOf_cons hnext (by simp; omega)

variable {l : List Char} {rules : List WholeRule}

/-- A sheet of complete rules is read rule by rule. -/
theorem rawRules_sheet (h : IsSheet l rules) (hplain : ∀ rule ∈ rules, rule.IsPlain) (stage : Stage) :
    rawRules stage [] (tokensOf l) = (rules.filterMap fun rule => rule? [] rule.tokens, []) := by
  induction h generalizing stage with
  | nil =>
    rw [tokensOf, rawRules]
    rfl
  | @blank c l rules hc _ ih =>
    rw [tokensOf_blank_cons hc, rawRules_blank stage [] (.inl rfl)]
    -- more blanks are the same token
    cases l with
    | nil => exact ih hplain _
    | cons d l =>
      by_cases hd : isSpace d = true
      · have hl := ih hplain (if stage = .start then .front else stage)
        have hnot : (if stage = .start then Stage.front else stage) ≠ .start := by
          split
          · simp
          · assumption
        rw [tokensOf_blank_cons hd, rawRules_blank _ [] (.inl rfl), if_neg hnot] at hl
        rwa [List.dropWhile_cons_of_pos hd]
      · rw [List.dropWhile_cons_of_neg hd]
        exact ih hplain _
  | comment hinner _ ih =>
    rw [tokensOf_comment hinner, rawRules_blank stage [] (.inr rfl)]
    exact ih hplain _
  | @rule text l rule rules hclosed htokens hcomplete _ ih =>
    have htext : tokensOf text = rule.front ++ [⟨.char, ['\x7d']⟩, ⟨.finish, []⟩] := by
      rw [htokens, WholeRule.tokens, List.append_assoc]
      rfl
    have happend : tokensOf (text ++ l) = rule.tokens ++ tokensOf l := by
      rw [tokensOf_append hclosed htext, WholeRule.tokens, List.append_assoc]
      rfl
    rw [happend, rawRules_rule stage [] hcomplete (hplain rule (by simp)),
      ih (fun r hr => hplain r (by simp [hr])), List.filterMap_cons]
    cases rule? [] rule.tokens <;> rfl

/-- The text is a sheet of complete rules that hide no brackets. -/
def IsPlainSheet (css : String) : Prop :=
  ∃ rules, IsSheet css.toList rules ∧ ∀ rule ∈ rules, rule.IsPlain

theorem IsPlainSheet.single {css : String} {rule : WholeRule} (h : IsSheet css.toList [rule])
    (hrule : rule.IsPlain) : IsPlainSheet css :=
  ⟨[rule], h, by simpa using hrule⟩

theorem IsPlainSheet.append {css css' : String} (h : IsPlainSheet css) (h' : IsPlainSheet css') :
    IsPlainSheet (css ++ css') := by
  obtain ⟨rules, hsheet, hplain⟩ := h
  obtain ⟨rules', hsheet', hplain'⟩ := h'
  refine ⟨rules ++ rules', by rw [String.toList_append]; exact hsheet.append hsheet', ?_⟩
  intro rule hrule
  exact (List.mem_append.mp hrule).elim (hplain rule) (hplain' rule)

theorem isPlainSheet_join {sheets : List String} (h : ∀ css ∈ sheets, IsPlainSheet css) :
    IsPlainSheet (String.join sheets) := by
  induction sheets with
  | nil => exact ⟨[], .nil, by simp⟩
  | cons css sheets ih =>
    rw [String.join_cons]
    exact (h css (by simp)).append (ih fun other hother => h other (by simp [hother]))

/-- The rules of two sheets, one behind the other, are those of the first and then those of the
second. -/
theorem styleRules_append {css css' : String} (h : IsPlainSheet css) (h' : IsPlainSheet css') :
    styleRules (css ++ css') = styleRules css ++ styleRules css' := by
  obtain ⟨rules, hsheet, hplain⟩ := h
  obtain ⟨rules', hsheet', hplain'⟩ := h'
  have hboth := rawRules_sheet (hsheet.append hsheet') (fun rule hrule =>
    (List.mem_append.mp hrule).elim (hplain rule) (hplain' rule)) .start
  rw [List.filterMap_append] at hboth
  simp only [styleRules, tokenize, String.toList_append, hboth, rawRules_sheet hsheet hplain,
    rawRules_sheet hsheet' hplain', List.map_append]

end Letterpress.Css
