import Mathlib.Tactic.Lemma
import MathExpr.Proofs.Grammar.Completeness

/-!
# How far an expression has come

Whether a token may come next depends on little of what stands in front of it: which groups are
open, and what the token just before calls for.  A machine with a stack keeps track of both.  It
never looks ahead, and from wherever it stands it can be brought to the end of an expression, so
the tokens that it takes are just those that some expression begins with.  The reader, which
descends from phrase to phrase, stops exactly where this machine does.

* `Stage`, `Group`, `Progress` — what a beginning of an expression leaves open.
* `Progress.step`, `Progress.run` — what one more token does to it, and what several do.
* `Progress.run_finish` — every beginning can be brought to an end.
* `Leads` — runs of the machine over words that are taken apart on the way.
* `Outcome.Follows` — a reading that keeps step with the machine.
* **`Phrase.follows_read`** — every reading does, whether it succeeds or fails.
-/

namespace MathExpr

/-! ## The machine -/

/-- What the last token calls for. -/
inductive Stage
  /-- An operand, perhaps behind signs. -/
  | opening
  /-- The operand that is a subscript. -/
  | subscript
  /-- The parenthesis behind the name of a function. -/
  | name
  /-- The first argument of a function, or the parenthesis that says that there is none. -/
  | arguments
  /-- Nothing more, but a letter may have a subscript. -/
  | letter
  /-- Nothing more. -/
  | complete
deriving DecidableEq

/-- What is open inside of an expression. -/
inductive Group
  | parens
  | bars
  | call
deriving DecidableEq

/-- The token that ends a group. -/
def Group.closing : Group → Token
  | .parens | .call => .rightParen
  | .bars => .bar

/-- What the beginning of an expression leaves open, the innermost group first. -/
structure Progress where
  stage : Stage
  groups : List Group
deriving DecidableEq

namespace Stage

/-- Whether an operand has to come, behind signs or not. -/
def Awaits : Stage → Prop
  | .opening | .subscript | .arguments => True
  | .name | .letter | .complete => False

/-- Whether an operand has come to its end. -/
def Settles : Stage → Prop
  | .letter | .complete => True
  | .opening | .subscript | .name | .arguments => False

/-- Tokens that bring an operand to its end. -/
def filler : Stage → List Token
  | .opening | .subscript | .arguments => [.number "0"]
  | .name => [.leftParen, .rightParen]
  | .letter | .complete => []

end Stage

namespace Progress

/-- Nothing has been taken yet. -/
def start : Progress := ⟨.opening, []⟩

/-- Begins an operand.  A word of several letters is the name of a function here: other words are
taken letter by letter. -/
def begin (groups : List Group) : Token → Option Progress
  | .number _ => some ⟨.complete, groups⟩
  | .word [_] => some ⟨.letter, groups⟩
  | .word (_ :: _ :: _) => some ⟨.name, groups⟩
  | .leftParen => some ⟨.opening, .parens :: groups⟩
  | _ => none

/-- Goes on behind an operand: an operator calls for the next one, and a closing token ends the
innermost group, if it is that group's. -/
def goOn (groups : List Group) : Token → Option Progress
  | .bang => some ⟨.complete, groups⟩
  | .caret | .times | .slash | .plus | .minus | .relation _ => some ⟨.opening, groups⟩
  | .comma =>
    match groups with
    | .call :: _ => some ⟨.opening, groups⟩
    | _ => none
  | .rightParen =>
    match groups with
    | .parens :: outer | .call :: outer => some ⟨.complete, outer⟩
    | _ => none
  | .bar =>
    match groups with
    | .bars :: outer => some ⟨.complete, outer⟩
    | _ => none
  | .number _ | .word _ | .underscore | .leftParen => none

/-- Takes one more token, if an expression can go on with it. -/
def step (p : Progress) (t : Token) : Option Progress :=
  match p.stage, t with
  | .name, .leftParen => some ⟨.arguments, .call :: p.groups⟩
  | .name, _ => none
  | _, .number _ | _, .word _ | _, .leftParen => begin p.groups t
  | .letter, .underscore => some ⟨.subscript, p.groups⟩
  | .letter, t | .complete, t => goOn p.groups t
  | .opening, .bar | .subscript, .bar | .arguments, .bar => some ⟨.opening, .bars :: p.groups⟩
  | .opening, .plus | .opening, .minus | .arguments, .plus | .arguments, .minus =>
    some ⟨.opening, p.groups⟩
  | .arguments, .rightParen => goOn p.groups .rightParen
  | _, _ => none

/-- Takes tokens one after the other. -/
def run (p : Progress) (ts : List Token) : Option Progress :=
  ts.foldlM step p

/-- The tokens taken are an expression. -/
def Done (p : Progress) : Prop :=
  p.stage.Settles ∧ p.groups = []

/-- Tokens that bring everything open to an end. -/
def finish (p : Progress) : List Token :=
  p.stage.filler ++ p.groups.map Group.closing

variable {p q : Progress} {t : Token} {ts us : List Token}

@[simp] lemma run_nil : p.run [] = some p := rfl

@[simp] lemma run_cons : p.run (t :: ts) = (p.step t).bind (·.run ts) := by
  simp only [run, List.foldlM_cons, Option.bind_eq_bind]

lemma run_append : p.run (ts ++ us) = (p.run ts).bind (·.run us) := by
  simp only [run, List.foldlM_append, Option.bind_eq_bind]

/-- Closing tokens end the groups that they were listed for. -/
lemma run_closing (groups : List Group) {s : Stage} (hs : s.Settles) :
    ∃ q, run ⟨s, groups⟩ (groups.map Group.closing) = some q ∧ q.Done := by
  induction groups generalizing s with
  | nil => exact ⟨⟨s, []⟩, rfl, hs, rfl⟩
  | cons group groups ih =>
      have hstep : step ⟨s, group :: groups⟩ group.closing = some ⟨.complete, groups⟩ := by
        cases s <;> cases group <;> first | exact hs.elim | rfl
      obtain ⟨q, hrun, hdone⟩ := ih (s := .complete) trivial
      exact ⟨q, by rw [List.map_cons, run_cons, hstep]; exact hrun, hdone⟩

/-- Whatever has been taken is the beginning of an expression. -/
theorem run_finish (p : Progress) : ∃ q, p.run p.finish = some q ∧ q.Done := by
  obtain ⟨s, groups⟩ := p
  have hfill : ∃ s', run ⟨s, groups⟩ s.filler = some ⟨s', groups⟩ ∧ s'.Settles := by
    cases s with
    | letter => exact ⟨.letter, rfl, trivial⟩
    | opening | subscript | name | arguments | complete => exact ⟨.complete, rfl, trivial⟩
  obtain ⟨s', hrun, hs'⟩ := hfill
  obtain ⟨q, hclose, hdone⟩ := run_closing groups hs'
  exact ⟨q, by rw [finish, run_append, hrun]; exact hclose, hdone⟩

@[simp] lemma step_emptyWord : p.step (.word []) = none := by
  obtain ⟨s, groups⟩ := p
  cases s <;> rfl

/-- Where no name is waiting for its parenthesis, operands can begin. -/
lemma step_of_startsOperand (hp : p.stage ≠ .name) (ht : Phrase.startsOperand [t] = true) :
    p.step t = begin p.groups t := by
  obtain ⟨s, groups⟩ := p
  cases t <;> cases s <;> first | exact absurd rfl hp | rfl | simp [Phrase.startsOperand] at ht

/-- Behind an operand, what goes on depends on the open groups alone. -/
lemma step_of_settles (hp : p.stage.Settles) (ht : t.grip ≠ 0) (ht' : t.grip ≠ 4) :
    p.step t = goOn p.groups t := by
  obtain ⟨s, groups⟩ := p
  cases t <;> cases s <;> first | exact hp.elim | rfl | simp [Token.grip] at ht ht'

/-- No token comes next. -/
def Refuses (p : Progress) (ts : List Token) : Prop :=
  p.stage ≠ .name ∧ ∀ t ∈ ts.head?, p.step t = none

@[simp] lemma refuses_cons : p.Refuses (t :: ts) ↔ p.stage ≠ .name ∧ p.step t = none := by
  simp [Refuses]

/-- Why reading fails in front of a token that does not come next: an operand is missing, or a group
is open.  The scanner makes no empty word, but a list of tokens may have one, and it never makes an
operand. -/
def Stuck (p : Progress) (ts : List Token) : ReadError → Prop
  | .expectedOperand => p.stage.Awaits ∨ ts.head? = some (.word [])
  | .unclosedGroup => p.groups ≠ []
  | _ => False

end Progress

/-! ## Runs over words that are taken apart -/

/-- The machine comes from `p` to `q` while the tokens `ts` are taken up to `us`, words letter by
letter unless they are names. -/
inductive Leads : Progress → List Token → Progress → List Token → Prop
  | refl (p : Progress) (ts : List Token) : Leads p ts p ts
  | token {p q r : Progress} {t : Token} {ts us : List Token} :
      Token.spellOut (t :: ts) = t :: Token.spellOut ts → p.step t = some q → Leads q ts r us →
      Leads p (t :: ts) r us
  | letter {p q r : Progress} {c d : Char} {letters : List Char} {ts us : List Token} :
      (∀ vs, ts ≠ .leftParen :: vs) → p.step (.word [c]) = some q →
      Leads q (.word (d :: letters) :: ts) r us → Leads p (.word (c :: d :: letters) :: ts) r us

namespace Leads

variable {p q r : Progress} {ts us vs : List Token}

lemma trans (h : Leads p ts q us) (h' : Leads q us r vs) : Leads p ts r vs := by
  induction h with
  | refl => exact h'
  | token hspell hstep _ ih => exact token hspell hstep (ih h')
  | letter hparen hstep _ ih => exact letter hparen hstep (ih h')

/-- The machine has run over the tokens in between, spelled out. -/
lemma exists_run (h : Leads p ts q us) :
    ∃ ws, Token.spellOut ts = ws ++ Token.spellOut us ∧ p.run ws = some q := by
  induction h with
  | refl => exact ⟨[], rfl, rfl⟩
  | @token _ _ _ t _ _ hspell hstep _ ih =>
      obtain ⟨ws, hws, hrun⟩ := ih
      exact ⟨t :: ws, by rw [hspell, hws, List.cons_append],
        by rw [Progress.run_cons, hstep]; exact hrun⟩
  | @letter _ _ _ c d letters ts us hparen hstep _ ih =>
      obtain ⟨ws, hws, hrun⟩ := ih
      exact ⟨.word [c] :: ws, by rw [Token.spellOut_letters c d letters hparen, hws,
        List.cons_append], by rw [Progress.run_cons, hstep]; exact hrun⟩

/-- Away from words the tokens not reached are the last of all tokens.  In a word they may be less:
the first letters of it are gone. -/
lemma suffix (h : Leads p ts q us) (hword : ∀ c letters vs, us ≠ .word (c :: letters) :: vs) :
    us <:+ ts := by
  induction h with
  | refl => exact List.suffix_rfl
  | token _ _ _ ih => exact (ih hword).trans (List.suffix_cons _ _)
  | @letter _ _ _ c d letters ts us _ _ _ ih =>
      rcases List.suffix_cons_iff.mp (ih hword) with h | h
      · exact absurd h (hword d letters ts)
      · exact h.trans (List.suffix_cons _ _)

end Leads

/-! ## Where phrases begin and end -/

namespace Progress

variable {m n : Category} {groups : List Group} {p : Progress} {t : Token} {ts : List Token}

/-- A phrase that may have signs can begin. -/
structure TakesSign (groups : List Group) (p : Progress) (ts : List Token) : Prop where
  groups_eq : p.groups = groups
  stage : p.stage = .opening ∨ p.stage = .arguments ∧ ∀ us, ts ≠ .rightParen :: us

/-- A phrase without signs can begin: it begins here, or nothing else can come. -/
structure TakesOperand (groups : List Group) (p : Progress) (ts : List Token) : Prop where
  groups_eq : p.groups = groups
  stage : p.stage ≠ .name
  starts : Phrase.startsOperand ts = true ∨ p.stage.Awaits ∧
    ∀ t ∈ ts.head?, Category.operand.opens t = false → p.step t = none

/-- A phrase of the category `n` has just ended, and nothing that comes next prolongs it.  An
underscore behind anything but a letter prolongs nothing. -/
structure Ended (n : Category) (groups : List Group) (p : Progress) (ts : List Token) : Prop where
  groups_eq : p.groups = groups
  stage : p.stage.Settles
  ends : ∀ t ∈ ts.head?, n.rank < t.grip ∨ t = .underscore ∧ p.stage = .complete

lemma TakesSign.opening : TakesSign groups ⟨.opening, groups⟩ ts :=
  ⟨rfl, .inl rfl⟩

/-- A subscript has no signs of its own. -/
lemma TakesOperand.subscript : TakesOperand groups ⟨.subscript, groups⟩ ts :=
  ⟨rfl, by simp, .inr ⟨trivial, fun t _ hopens => by
    cases t <;> simp_all [Category.opens, step]⟩⟩

/-- Where no sign comes, an operand has to. -/
lemma TakesSign.takesOperand (h : p.TakesSign groups ts) (hminus : ∀ us, ts ≠ .minus :: us)
    (hplus : ∀ us, ts ≠ .plus :: us) : p.TakesOperand groups ts := by
  obtain ⟨s, groups'⟩ := p
  obtain ⟨hgroups, hs⟩ := h
  refine ⟨hgroups, by rcases hs with rfl | ⟨rfl, _⟩ <;> simp, .inr ?_⟩
  refine ⟨by rcases hs with rfl | ⟨rfl, _⟩ <;> trivial, fun t ht hopens => ?_⟩
  cases ts with
  | nil => simp at ht
  | cons t' us =>
      obtain rfl : t' = t := by simpa using ht
      rcases hs with rfl | ⟨rfl, hparen⟩
      · cases t' <;> simp_all [Category.opens, step]
      · cases t' <;> simp_all [Category.opens, step]

/-- A sign in front of an operand. -/
lemma TakesSign.step_sign (h : p.TakesSign groups ts) (ht : t = .plus ∨ t = .minus) :
    p.step t = some ⟨.opening, groups⟩ := by
  obtain ⟨s, groups'⟩ := p
  obtain ⟨rfl, hs⟩ := h
  rcases hs with rfl | ⟨rfl, _⟩ <;> rcases ht with rfl | rfl <;> rfl

namespace TakesOperand

lemma step_eq (h : p.TakesOperand groups ts) (ht : Phrase.startsOperand [t] = true) :
    p.step t = begin groups t := by
  rw [step_of_startsOperand h.stage ht, h.groups_eq]

lemma step_bar (h : p.TakesOperand groups (.bar :: ts)) :
    p.step .bar = some ⟨.opening, .bars :: groups⟩ := by
  obtain ⟨s, groups'⟩ := p
  obtain ⟨rfl, _, hstarts⟩ := h
  rcases hstarts with hstarts | ⟨hs, _⟩
  · simp [Phrase.startsOperand] at hstarts
  · cases s <;> first | exact hs.elim | rfl

/-- Where no operand begins, no token at all can come. -/
lemma stuck (h : p.TakesOperand groups ts)
    (hopens : ∀ t ∈ ts.head?, Category.operand.opens t = false ∨ t = .word []) :
    p.Refuses ts ∧ p.Stuck ts .expectedOperand := by
  cases ts with
  | nil =>
      have hawaits : p.stage.Awaits := by simpa [Phrase.startsOperand] using h.starts
      exact ⟨⟨h.stage, by simp⟩, .inl hawaits⟩
  | cons t us =>
      rcases hopens t rfl with ht | rfl
      · have hstart : Phrase.startsOperand (t :: us) = false := by
          cases t <;> simp_all [Category.opens, Phrase.startsOperand]
        obtain ⟨hawaits, hnone⟩ := h.starts.resolve_left (by simp [hstart])
        refine ⟨⟨h.stage, fun t' ht' => ?_⟩, .inl hawaits⟩
        obtain rfl : t = t' := by simpa using ht'
        exact hnone t rfl ht
      · exact ⟨⟨h.stage, by simp⟩, .inr rfl⟩

end TakesOperand

namespace Ended

/-- Another factor begins. -/
lemma takesOperand (h : p.Ended n groups ts) (hstart : Phrase.startsOperand ts = true) :
    p.TakesOperand groups ts := by
  refine ⟨h.groups_eq, fun hs => ?_, .inl hstart⟩
  have := h.stage
  rw [hs] at this
  exact this

lemma complete : Ended .operand groups ⟨.complete, groups⟩ ts :=
  ⟨rfl, trivial, fun t _ => by cases t <;> simp [Category.rank, Token.grip]⟩

lemma letter (h : ∀ us, ts ≠ .underscore :: us) : Ended .operand groups ⟨.letter, groups⟩ ts :=
  ⟨rfl, trivial, fun t ht => by
    cases ts with
    | nil => simp at ht
    | cons t' us =>
        obtain rfl : t' = t := by simpa using ht
        cases t' <;> simp_all [Category.rank, Token.grip]⟩

/-- What does not prolong a phrase need not prolong a looser one, apart from certain signs. -/
lemma loosen (h : p.Ended m groups ts)
    (hmn : ∀ t us, ts = t :: us → m.rank < t.grip → n.rank < t.grip) : p.Ended n groups ts := by
  refine ⟨h.groups_eq, h.stage, fun t ht => (h.ends t ht).imp_left ?_⟩
  obtain ⟨us, rfl⟩ := List.head?_eq_some_iff.mp ht
  exact hmn t us rfl

/-- Behind an operand there is an operator, and then the next operand. -/
lemma step_opening (h : p.Ended n groups (t :: ts)) (ht : 6 ≤ t.grip ∨ t = .caret)
    (ht' : t.grip < 9) : p.step t = some ⟨.opening, groups⟩ := by
  have hstep : p.step t = goOn p.groups t :=
    step_of_settles h.stage (by rcases ht with ht | rfl; exacts [by omega, by decide])
      (by rcases ht with ht | rfl; exacts [by omega, by decide])
  rw [hstep, h.groups_eq]
  cases t <;> simp_all [Token.grip, goOn]

lemma refuses (h : p.Ended .relation groups ts)
    (hclose : ∀ t ∈ ts.head?, 9 ≤ t.grip → goOn groups t = none) : p.Refuses ts := by
  have hname : p.stage ≠ .name := by
    intro hs
    have := h.stage
    rw [hs] at this
    exact this
  refine ⟨hname, fun t ht => ?_⟩
  rcases h.ends t ht with hgrip | ⟨rfl, hs⟩
  · have hgrip : 9 ≤ t.grip := hgrip
    rw [step_of_settles h.stage (by omega) (by omega), h.groups_eq]
    exact hclose t ht hgrip
  · obtain ⟨s, groups'⟩ := p
    obtain rfl : s = .complete := hs
    rfl

end Ended

end Progress

/-! ## Readings that keep step -/

/-- The reading of `ts` keeps step with the machine from `p` on: the machine takes what the reading
takes and has come to `good` where it succeeds.  Where it fails, the machine is stuck.  In place of
the tokens taken as many tokens are left behind. -/
def Outcome.Follows (o : Outcome) (p : Progress) (ts : List Token)
    (good : Progress → List Token → Prop) : Prop :=
  o.trail.length + o.rest.length = ts.length ∧ ∃ q, Leads p ts q o.rest ∧
    match o.result with
    | .ok _ => good q o.rest
    | .error error => q.Refuses o.rest ∧ q.Stuck o.rest error

lemma Outcome.after_cons (t u : Token) (ts : List Token) (o : Outcome) :
    o.after (t :: u :: ts) = (o.after (u :: ts)).after [t] := rfl

namespace Outcome.Follows

variable {p q : Progress} {t : Token} {ts us : List Token} {o : Outcome} {e : Expr}
  {good good' : Progress → List Token → Prop}

lemma stop (h : good p ts) : (Outcome.stop e ts).Follows p ts good :=
  ⟨by simp [Outcome.stop], p, .refl p ts, h⟩

lemma fail {error : ReadError} (h : p.Refuses ts) (hstuck : p.Stuck ts error) :
    (Outcome.fail error ts).Follows p ts good :=
  ⟨by simp [Outcome.fail], p, .refl p ts, h, hstuck⟩

/-- A token that is taken as it stands. -/
lemma after (hspell : Token.spellOut (t :: ts) = t :: Token.spellOut ts)
    (hstep : p.step t = some q) (h : o.Follows q ts good) :
    (o.after [t]).Follows p (t :: ts) good := by
  obtain ⟨hlength, r, hleads, hresult⟩ := h
  refine ⟨?_, r, .token hspell hstep hleads, hresult⟩
  simp only [Outcome.after, List.singleton_append, List.length_cons]
  omega

/-- A token other than a word. -/
lemma sign (ht : ∀ letters, t ≠ .word letters) (hstep : p.step t = some q)
    (h : o.Follows q ts good) : (o.after [t]).Follows p (t :: ts) good :=
  h.after (Token.spellOut_cons ht ts) hstep

lemma map {f : Expr → Expr} (h : o.Follows p ts good) : (o.map f).Follows p ts good := by
  obtain ⟨hlength, q, hleads, hresult⟩ := h
  refine ⟨hlength, q, hleads, ?_⟩
  cases ho : o.result with
  | ok e => simpa [Outcome.map, Except.map, ho] using hresult
  | error error => simpa [Outcome.map, Except.map, ho] using hresult

/-- Reading on after a success. -/
lemma andThen {next : Expr → List Token → Outcome} (h : o.Follows p ts good)
    (hnext : ∀ e q us, o.Yields e us → good q us → (next e us).Follows q us good') :
    (o.andThen next).Follows p ts good' := by
  obtain ⟨hlength, q, hleads, hresult⟩ := h
  cases ho : o.result with
  | error error =>
      rw [ho] at hresult
      have heq : o.andThen next = o := by simp [Outcome.andThen, ho]
      rw [heq]
      exact ⟨hlength, q, hleads, by rw [ho]; exact hresult⟩
  | ok e =>
      rw [ho] at hresult
      obtain ⟨hlength', r, hleads', hresult'⟩ := hnext e q o.rest ⟨ho, rfl⟩ hresult
      have heq : o.andThen next = (next e o.rest).after o.trail := by simp [Outcome.andThen, ho]
      rw [heq]
      refine ⟨?_, r, hleads.trans hleads', hresult'⟩
      simp only [Outcome.after, List.length_append]
      omega

/-- Where an expression in a group has ended, the group is closed or reading is stuck.  In a call a
comma would go on. -/
lemma close (group : Group) {outer : List Group} (h : p.Ended .relation (group :: outer) ts)
    (hcomma : group = .call → ∀ us, ts ≠ .comma :: us) :
    (Outcome.close group.closing e ts).Follows p ts (Progress.Ended .operand outer) := by
  have hclosing : ∀ t, t ≠ group.closing → (group = .call → t ≠ .comma) →
      9 ≤ t.grip → Progress.goOn (group :: outer) t = none := by
    intro t ht hcomma hgrip
    cases group <;> cases t <;> simp_all [Group.closing, Progress.goOn, Token.grip]
  have hstuck : p.Stuck ts .unclosedGroup := by simp [Progress.Stuck, h.groups_eq]
  cases ts with
  | nil => exact .fail (h.refuses (by simp)) hstuck
  | cons t us =>
      by_cases ht : t = group.closing
      · subst ht
        have hstep : p.step group.closing = some ⟨.complete, outer⟩ := by
          rw [Progress.step_of_settles h.stage (by cases group <;> decide)
            (by cases group <;> decide), h.groups_eq]
          cases group <;> rfl
        rw [Outcome.close, if_pos rfl]
        exact (stop Progress.Ended.complete).sign (by cases group <;> simp [Group.closing]) hstep
      · rw [Outcome.close, if_neg ht]
        refine .fail (h.refuses fun t' ht' hgrip => ?_) hstuck
        obtain rfl : t = t' := by simpa using ht'
        exact hclosing t ht (fun hcall heq => hcomma hcall us (by rw [heq])) hgrip

end Outcome.Follows

namespace Phrase

open Token Progress

/-- Where a phrase can be read: at its beginning, or behind a phrase that its companion goes on
with. -/
def Ready (groups : List Group) (p : Progress) (ts : List Token) : Phrase → Prop
  | .relation | .sum | .product | .signed | .exponent => p.TakesSign groups ts
  | .juxtaposition | .power | .factorial | .operand => p.TakesOperand groups ts
  | .relationRest _ => p.Ended .sum groups ts
  | .sumRest _ => p.Ended .product groups ts
  | .productRest _ => p.Ended .juxtaposition groups ts
  | .juxtapositionRest _ => p.Ended .power groups ts
  | .powerRest _ => p.Ended .factorial groups ts
  | .factorialRest _ => p.Ended .operand groups ts
  | .arguments _ _ => p.TakesSign (.call :: groups) ts
  | .argumentsRest _ _ => p.Ended .relation (.call :: groups) ts

/-- What a phrase ends as.  Signs in front of a phrase do not matter for that. -/
def ending : Phrase → Category
  | .relation | .relationRest _ => .relation
  | .sum | .sumRest _ => .sum
  | .product | .productRest _ => .product
  | .signed | .juxtaposition | .juxtapositionRest _ => .juxtaposition
  | .exponent | .power | .powerRest _ => .power
  | .factorial | .factorialRest _ => .factorial
  | .operand | .arguments _ _ | .argumentsRest _ _ => .operand

/-- **Reading keeps step with the machine**, from wherever a phrase can be read.  The recursion is
that of the reader. -/
theorem follows_read : ∀ (phrase : Phrase) (ts : List Token) {groups : List Group} {p : Progress},
    phrase.Ready groups p ts → (phrase.read ts).Follows p ts (Ended phrase.ending groups)
  | .relation, ts, groups, p, h => by
      rw [read_relation]
      refine (follows_read .sum ts h).andThen fun e q us hyields hended => ?_
      have hlt := weigh_lt_of_yields hyields
      exact follows_read (.relationRest (.single e)) us hended
  | .relationRest chain, ts, groups, p, h => by
      by_cases hts : ∃ symbol us, ts = .relation symbol :: us
      · obtain ⟨symbol, us, hts⟩ := hts
        rw [hts, read_relationRest_relation]
        have hstep := (hts ▸ h : Ended _ _ p _).step_opening (by simp [grip]) (by simp [grip])
        refine .sign (by simp) hstep ?_
        refine (follows_read .sum us .opening).andThen fun e q vs hyields hended => ?_
        have hlt := weigh_lt_of_yields hyields
        exact follows_read (.relationRest (chain.extend symbol e)) vs hended
      · rw [read_relationRest_stop chain fun symbol us hus => hts ⟨symbol, us, hus⟩]
        refine .stop (h.loosen fun t us hus hgrip => ?_)
        cases t <;> simp_all [Category.rank, ending, grip]
  | .sum, ts, groups, p, h => by
      rw [read_sum]
      refine (follows_read .product ts h).andThen fun e q us hyields hended => ?_
      have hlt := weigh_lt_of_yields hyields
      exact follows_read (.sumRest [e]) us hended
  | .sumRest terms, ts, groups, p, h => by
      by_cases hts : ∃ (sign : TermSign) (us : List Token), ts = sign.token :: us
      · obtain ⟨sign, us, hts⟩ := hts
        rw [hts, read_sumRest_sign]
        have hstep := (hts ▸ h : Ended _ _ p _).step_opening (by simp) (by simp)
        refine .sign sign.token_ne_word hstep ?_
        refine (follows_read .product us .opening).andThen fun e q vs hyields hended => ?_
        have hlt := weigh_lt_of_yields hyields
        exact follows_read (.sumRest (terms ++ [sign.term e])) vs hended
      · have hplus : ∀ us, ts ≠ .plus :: us := fun us hus => hts ⟨.plus, us, hus⟩
        have hminus : ∀ us, ts ≠ .minus :: us := fun us hus => hts ⟨.minus, us, hus⟩
        rw [read_sumRest_stop terms hplus hminus]
        refine .stop (h.loosen fun t us hus hgrip => ?_)
        cases t <;> simp_all [Category.rank, ending, grip]
  | .product, ts, groups, p, h => by
      rw [read_product]
      refine (follows_read .signed ts h).andThen fun e q us hyields hended => ?_
      have hlt := weigh_lt_of_yields hyields
      exact follows_read (.productRest [e]) us hended
  | .productRest factors, ts, groups, p, h => by
      by_cases hts : ∃ (sign : FactorSign) (us : List Token), ts = sign.token :: us
      · obtain ⟨sign, us, hts⟩ := hts
        rw [hts, read_productRest_sign]
        have hstep := (hts ▸ h : Ended _ _ p _).step_opening (by simp) (by simp)
        refine .sign sign.token_ne_word hstep ?_
        refine (follows_read .signed us .opening).andThen fun e q vs hyields hended => ?_
        have hlt := weigh_lt_of_yields hyields
        exact follows_read (.productRest (sign.extend factors e)) vs hended
      · have htimes : ∀ us, ts ≠ .times :: us := fun us hus => hts ⟨.times, us, hus⟩
        have hslash : ∀ us, ts ≠ .slash :: us := fun us hus => hts ⟨.slash, us, hus⟩
        rw [read_productRest_stop factors htimes hslash]
        refine .stop (h.loosen fun t us hus hgrip => ?_)
        cases t <;> simp_all [Category.rank, ending, grip]
  | .signed, ts, groups, p, h => by
      by_cases hminus : ∃ us, ts = .minus :: us
      · obtain ⟨us, hts⟩ := hminus
        rw [hts, read_signed_minus]
        exact .sign (by simp) (h.step_sign (.inr rfl)) (follows_read .signed us .opening).map
      by_cases hplus : ∃ us, ts = .plus :: us
      · obtain ⟨us, hts⟩ := hplus
        rw [hts, read_signed_plus]
        exact .sign (by simp) (h.step_sign (.inl rfl)) (follows_read .signed us .opening).map
      have hminus' : ∀ us, ts ≠ .minus :: us := fun us hus => hminus ⟨us, hus⟩
      have hplus' : ∀ us, ts ≠ .plus :: us := fun us hus => hplus ⟨us, hus⟩
      rw [read_signed_unsigned hminus' hplus']
      exact follows_read .juxtaposition ts (h.takesOperand hminus' hplus')
  | .juxtaposition, ts, groups, p, h => by
      rw [read_juxtaposition]
      refine (follows_read .power ts h).andThen fun e q us hyields hended => ?_
      have hlt := weigh_lt_of_yields hyields
      exact follows_read (.juxtapositionRest [e]) us hended
  | .juxtapositionRest factors, ts, groups, p, h => by
      cases hts : startsOperand ts with
      | true =>
        rw [read_juxtapositionRest_operand factors hts]
        refine (follows_read .power ts (h.takesOperand hts)).andThen fun e q us hyields hended => ?_
        have hlt := weigh_lt_of_yields hyields
        exact follows_read (.juxtapositionRest (factors ++ [e])) us hended
      | false =>
        rw [read_juxtapositionRest_stop factors hts]
        refine .stop (h.loosen fun t us hus hgrip => ?_)
        cases t <;> simp_all [Category.rank, ending, grip, startsOperand]
  | .power, ts, groups, p, h => by
      rw [read_power]
      refine (follows_read .factorial ts h).andThen fun e q us hyields hended => ?_
      have hlt := weigh_lt_of_yields hyields
      exact follows_read (.powerRest e) us hended
  | .powerRest b, ts, groups, p, h => by
      by_cases hts : ∃ us, ts = .caret :: us
      · obtain ⟨us, hts⟩ := hts
        rw [hts, read_powerRest_caret]
        have hstep := (hts ▸ h : Ended _ _ p _).step_opening (.inr rfl) (by simp [grip])
        exact .sign (by simp) hstep (follows_read .exponent us .opening).map
      · rw [read_powerRest_stop b fun us hus => hts ⟨us, hus⟩]
        refine .stop (h.loosen fun t us hus hgrip => ?_)
        cases t <;> simp_all [Category.rank, ending, grip]
  | .exponent, ts, groups, p, h => by
      by_cases hminus : ∃ us, ts = .minus :: us
      · obtain ⟨us, hts⟩ := hminus
        rw [hts, read_exponent_minus]
        exact .sign (by simp) (h.step_sign (.inr rfl)) (follows_read .exponent us .opening).map
      by_cases hplus : ∃ us, ts = .plus :: us
      · obtain ⟨us, hts⟩ := hplus
        rw [hts, read_exponent_plus]
        exact .sign (by simp) (h.step_sign (.inl rfl)) (follows_read .exponent us .opening).map
      have hminus' : ∀ us, ts ≠ .minus :: us := fun us hus => hminus ⟨us, hus⟩
      have hplus' : ∀ us, ts ≠ .plus :: us := fun us hus => hplus ⟨us, hus⟩
      rw [read_exponent_unsigned hminus' hplus']
      exact follows_read .power ts (h.takesOperand hminus' hplus')
  | .factorial, ts, groups, p, h => by
      rw [read_factorial]
      refine (follows_read .operand ts h).andThen fun e q us hyields hended => ?_
      have hlt := weigh_lt_of_yields hyields
      exact follows_read (.factorialRest e) us hended
  | .factorialRest a, ts, groups, p, h => by
      by_cases hts : ∃ us, ts = .bang :: us
      · obtain ⟨us, hts⟩ := hts
        rw [hts, read_factorialRest_bang]
        have hstep : p.step .bang = some ⟨.complete, groups⟩ := by
          rw [step_of_settles h.stage (by decide) (by decide), h.groups_eq]
          rfl
        exact .sign (by simp) hstep (follows_read (.factorialRest a.fact) us .complete)
      · rw [read_factorialRest_stop a fun us hus => hts ⟨us, hus⟩]
        refine .stop (h.loosen fun t us hus hgrip => ?_)
        cases t <;> simp_all [Category.rank, ending, grip]
  | .operand, .number numeral :: us, groups, p, h => by
      rw [read_operand_number]
      exact .sign (by simp) (h.step_eq rfl) (.stop .complete)
  | .operand, .word (c :: d :: letters) :: us, groups, p, h => by
      by_cases hcall : ∃ vs, us = .leftParen :: vs
      · obtain ⟨vs, rfl⟩ := hcall
        have hname : spellOut (.word (c :: d :: letters) :: .leftParen :: vs) =
            .word (c :: d :: letters) :: spellOut (.leftParen :: vs) := by
          rw [spellOut_name, spellOut_cons (by simp)]
        by_cases hnil : ∃ ws, vs = .rightParen :: ws
        · obtain ⟨ws, rfl⟩ := hnil
          rw [read_operand_call_nil, Outcome.after_cons, Outcome.after_cons]
          refine .after hname (h.step_eq rfl) ?_
          exact .sign (by simp) rfl (.sign (by simp) rfl (.stop .complete))
        · have hargs : ∀ ws, vs ≠ .rightParen :: ws := fun ws hws => hnil ⟨ws, hws⟩
          rw [read_operand_call c d letters hargs, Outcome.after_cons]
          refine .after hname (h.step_eq rfl) (.sign (by simp) rfl ?_)
          exact follows_read (.arguments _ []) vs ⟨rfl, .inr ⟨rfl, hargs⟩⟩
      · have hword : ∀ vs, us ≠ .leftParen :: vs := fun vs hvs => hcall ⟨vs, hvs⟩
        rw [read_operand_letter c d letters hword]
        refine ⟨by simp [Outcome.stop], ⟨.letter, groups⟩, ?_, .letter (by simp [Outcome.stop])⟩
        exact .letter hword (h.step_eq rfl) (.refl _ _)
  | .operand, .word [c] :: us, groups, p, h => by
      by_cases hsub : ∃ vs, us = .underscore :: vs
      · obtain ⟨vs, rfl⟩ := hsub
        rw [read_operand_subscript, Outcome.after_cons]
        refine .after (spellOut_letter c _) (h.step_eq rfl) (.sign (by simp) rfl ?_)
        exact (follows_read .operand vs .subscript).map
      · have hletter : ∀ vs, us ≠ .underscore :: vs := fun vs hvs => hsub ⟨vs, hvs⟩
        rw [read_operand_lastLetter c hletter]
        exact .after (spellOut_letter c us) (h.step_eq rfl) (.stop (.letter hletter))
  | .operand, .leftParen :: us, groups, p, h => by
      rw [read_operand_parens]
      refine .sign (by simp) (h.step_eq rfl) ?_
      refine (follows_read .relation us .opening).andThen fun e q vs _ hended => ?_
      exact .close .parens hended (by simp)
  | .operand, .bar :: us, groups, p, h => by
      rw [read_operand_bars]
      refine .sign (by simp) h.step_bar ?_
      refine (follows_read .relation us .opening).andThen fun e q vs _ hended => ?_
      exact .close .bars hended (by simp)
  | .operand, .word [] :: _, groups, p, h | .operand, [], groups, p, h
  | .operand, .plus :: _, groups, p, h | .operand, .minus :: _, groups, p, h
  | .operand, .times :: _, groups, p, h | .operand, .slash :: _, groups, p, h
  | .operand, .caret :: _, groups, p, h | .operand, .bang :: _, groups, p, h
  | .operand, .underscore :: _, groups, p, h | .operand, .rightParen :: _, groups, p, h
  | .operand, .comma :: _, groups, p, h | .operand, .relation _ :: _, groups, p, h => by
      rw [read_operand_expected (by simp) (by simp) (by simp) (by simp)]
      obtain ⟨hrefuses, hstuck⟩ := h.stuck (by simp [Category.opens, Category.rank])
      exact .fail hrefuses hstuck
  | .arguments name args, ts, groups, p, h => by
      rw [read_arguments]
      refine (follows_read .relation ts h).andThen fun e q us hyields hended => ?_
      have hlt := weigh_lt_of_yields hyields
      exact follows_read (.argumentsRest name (args ++ [e])) us hended
  | .argumentsRest name args, ts, groups, p, h => by
      by_cases hts : ∃ us, ts = .comma :: us
      · obtain ⟨us, hts⟩ := hts
        rw [hts, read_argumentsRest_comma]
        have hstep : p.step .comma = some ⟨.opening, .call :: groups⟩ := by
          rw [step_of_settles h.stage (by decide) (by decide), h.groups_eq]
          rfl
        exact .sign (by simp) hstep (follows_read (.arguments name args) us .opening)
      · have hcomma : ∀ us, ts ≠ .comma :: us := fun us hus => hts ⟨us, hus⟩
        rw [read_argumentsRest_close name args hcomma]
        exact .close .call h fun _ => hcomma
termination_by phrase ts => weigh ts * 16 + phrase.rank
decreasing_by
  all_goals
    simp only [weigh, weight, Phrase.grace, Phrase.rank, *] at *
    omega

end Phrase

end MathExpr
