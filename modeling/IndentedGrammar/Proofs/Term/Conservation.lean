import IndentedGrammar.Proofs.Term.Lexing
import IndentedGrammar.Proofs.Term.RoundTrip

namespace IndentedGrammar

open Cursor

def Kind.tokens (text : Option String) (parts : List (List Token)) : Kind → List Token
  | .choice => List.intercalate [.mark '|'] parts
  | .sequence => parts.flatten
  | .predicate p => .mark p.symbol :: parts.flatten
  | .repetition r => parts.flatten ++ [.mark r.symbol]
  | .reference => [.reference (text.getD "").toList]
  | .literal => [.literal (text.getD "").toList]
  | .characterClass => [.characterClass (text.getD "").toList]
  | .any => [.mark '.']

namespace Term

mutual

def tokens : Term → List Token
  | ⟨kind, _, text, children⟩ => kind.tokens text (tokensAll children)

def tokensAll : List Term → List (List Token)
  | [] => []
  | t :: ts => t.tokens :: tokensAll ts

end

mutual

theorem tokens_mapPosition (f : Position → Position) : (t : Term) → (t.mapPosition f).tokens = t.tokens
  | ⟨kind, p, text, children⟩ => by
    rw [mapPosition, tokens, tokens, tokensAll_mapPosition f children]

theorem tokensAll_mapPosition (f : Position → Position) :
    (ts : List Term) → tokensAll (mapPositionAll f ts) = tokensAll ts
  | [] => rfl
  | t :: ts => by
    rw [mapPositionAll, tokensAll, tokensAll, tokens_mapPosition f t, tokensAll_mapPosition f ts]

end

end Term

namespace Token

def isParenthesis (tok : Token) : Bool := tok = .mark '(' || tok = .mark ')'

/-- The tokens that rules and terms are made of. Parentheses are left out, and so is a bar right behind
a colon. -/
def significant : List Token → List Token
  | [] => []
  | .mark ':' :: .mark '|' :: toks => .mark ':' :: significant toks
  | tok :: toks => if tok.isParenthesis then significant toks else tok :: significant toks

theorem significant_cons {tok : Token} (h : tok ≠ .mark ':') (toks : List Token) :
    significant (tok :: toks) =
      if tok.isParenthesis then significant toks else tok :: significant toks := by
  rw [significant]
  exact fun _ e => absurd e h

theorem significant_colon {tok : Token} (h : tok ≠ .mark '|') (toks : List Token) :
    significant (.mark ':' :: tok :: toks) = .mark ':' :: significant (tok :: toks) := by
  rw [significant]
  · rfl
  · exact fun _ _ e => absurd (List.cons.inj e).1 h

theorem significant_append {toks : List Token} (h : .mark ':' ∉ toks) (more : List Token) :
    significant (toks ++ more) = toks.filter (!·.isParenthesis) ++ significant more := by
  induction toks with
  | nil => rfl
  | cons tok toks ih =>
    rw [List.mem_cons, not_or] at h
    rw [List.cons_append, significant_cons (Ne.symm h.1), ih h.2, List.filter_cons]
    cases tok.isParenthesis <;> rfl

theorem Spelled.ne_colon {tok : Token} {word : List Char} (h : tok.Spelled word) :
    tok ≠ .mark ':' := by
  rintro rfl
  cases h with
  | mark hmark => exact absurd hmark (by decide)

end Token

namespace Phrase

def tokens : Phrase → List Term → List Token
  | .alternatives, ts => List.intercalate [.mark '|'] (Term.tokensAll ts)
  | _, ts => (Term.tokensAll ts).flatten

theorem tokens_single (phrase : Phrase) (t : Term) : phrase.tokens [t] = t.tokens := by
  cases phrase <;> simp [tokens, Term.tokensAll, List.intercalate]

end Phrase

namespace Term

theorem tokens_leaf (kind : Kind) (text : List Char) :
    (leaf kind text).tokens = kind.tokens (some (String.ofList text)) [] := by
  rw [leaf, tokens, tokensAll]

theorem tokens_node (kind : Kind) (ts : List Term) :
    (node kind ts).tokens = kind.tokens none (tokensAll ts) := by
  rw [node, tokens]

theorem tokens_collapse (kind : Kind) (ts : List Term)
    (h : ∀ t : Term, kind.tokens none [t.tokens] = t.tokens) :
    (collapse kind .start ts).tokens = kind.tokens none (tokensAll ts) := by
  match ts with
  | [] => exact tokens_node kind []
  | [t] => exact (h t).symm
  | t :: t' :: ts => exact tokens_node kind (t :: t' :: ts)

end Term

namespace Derives

open Token

variable {phrase : Phrase} {toks : List Token} {ts : List Term} {t : Term}

theorem filter_tokens (h : Derives phrase toks ts) (hp : phrase ≠ .term) :
    toks.filter (!·.isParenthesis) = phrase.tokens ts := by
  induction h with
  | reference => simp [Phrase.tokens_single, Term.tokens_leaf, Kind.tokens, isParenthesis]
  | literal => simp [Phrase.tokens_single, Term.tokens_leaf, Kind.tokens, isParenthesis]
  | characterClass => simp [Phrase.tokens_single, Term.tokens_leaf, Kind.tokens, isParenthesis]
  | any => rfl
  | group _ ih =>
    have ih := ih (by simp)
    rw [Phrase.tokens_single] at ih ⊢
    simp [isParenthesis, ← ih]
  | once _ ih => simpa [Phrase.tokens_single] using ih (by simp)
  | repetition r _ ih =>
    have ih := ih (by simp)
    have hr : (Token.mark r.symbol).isParenthesis = false := by cases r <;> decide
    rw [Phrase.tokens_single] at ih ⊢
    rw [Term.tokens_node, Kind.tokens, List.filter_append, ih]
    simp [hr, Term.tokensAll]
  | plain _ ih => simpa [Phrase.tokens_single] using ih (by simp)
  | predicate p _ ih =>
    have ih := ih (by simp)
    have hr : (Token.mark p.symbol).isParenthesis = false := by cases p <;> decide
    rw [Phrase.tokens_single] at ih ⊢
    rw [Term.tokens_node, Kind.tokens, List.filter_cons, ih]
    simp [hr, Term.tokensAll]
  | lastPart _ ih => simpa [Phrase.tokens_single] using ih (by simp)
  | part _ _ ih ih' =>
    rw [List.filter_append, ih (by simp), ih' (by simp), Phrase.tokens_single]
    rfl
  | @sequence toks ts _ ih =>
    rw [ih (by simp), Phrase.tokens_single, Term.tokens_collapse .sequence ts (by simp [Kind.tokens])]
    rfl
  | lastAlternative _ ih => simpa [Phrase.tokens_single] using ih (by simp)
  | @alternative toks more t ts _ hmore ih ih' =>
    obtain ⟨t', ts, rfl⟩ := List.exists_cons_of_ne_nil hmore.ne_nil
    rw [List.filter_append, ih (by simp), List.filter_cons, ih' (by simp), Phrase.tokens_single]
    rfl
  | @choice toks ts _ ih =>
    rw [ih (by simp), Phrase.tokens_single,
      Term.tokens_collapse .choice ts (by simp [Kind.tokens, List.intercalate])]
    rfl
  | term => exact absurd rfl hp
  | barred => exact absurd rfl hp

theorem significant_eq (h : Derives .term toks [t]) (hcolon : .mark ':' ∉ toks) (more : List Token) :
    significant (.mark ':' :: (toks ++ more)) = .mark ':' :: (t.tokens ++ significant more) := by
  cases h with
  | term hchoice =>
    have hfilter := hchoice.filter_tokens (by simp)
    obtain ⟨tok, rest, rfl, hstart⟩ := hchoice.startsPart (by simp)
    have hbar : tok ≠ .mark '|' := by
      rintro rfl
      exact absurd hstart (by decide)
    rw [List.cons_append, significant_colon hbar, ← List.cons_append, significant_append hcolon,
      hfilter, Phrase.tokens_single]
  | @barred toks _ hchoice =>
    have hfilter := hchoice.filter_tokens (by simp)
    rw [List.mem_cons, not_or] at hcolon
    rw [List.cons_append, significant, significant_append hcolon.2, hfilter, Phrase.tokens_single]

end Derives

namespace Term

open Token

theorem splits_tokens {t : Term} (h : t.WellFormed) :
    ∃ toks, Splits (t.chars 0) toks ∧ toks.filter (!·.isParenthesis) = t.tokens := by
  obtain ⟨toks, hsplits, hder, -⟩ := exists_tokens h
  refine ⟨toks, hsplits, ?_⟩
  rw [hder.filter_tokens (by simp), Phrase.tokens_single, bare, tokens_mapPosition]

variable {src : Source} {limit : Int} {newlineFirst : Bool} {c e : Cursor} {t : Term}

theorem tokens_of_read (h : read src limit newlineFirst c = .done t e) :
    ∃ toks, c.LexesTo toks e ∧ ∀ more,
      significant (.mark ':' :: (toks ++ more)) = .mark ':' :: (t.tokens ++ significant more) := by
  obtain ⟨⟨toks, d, hscan, rfl, hder, -⟩, -⟩ := term_of_read h
  have hlexes := (LexesTo.skipGap src (src.indentation c.position.line) c).append
    ((LexesTo.scans hscan).append (.skipGap src (src.indentation c.position.line) d))
  have hcolon : .mark ':' ∉ toks := by
    intro hmem
    obtain ⟨word, hspelled⟩ := hscan.spelled _ hmem
    exact hspelled.ne_colon rfl
  refine ⟨toks, by simpa using hlexes, ?_⟩
  intro more
  rw [hder.significant_eq hcolon, bare, tokens_mapPosition]

end Term

end IndentedGrammar
