import IndentedGrammar.Proofs.Document.Conservation
import IndentedGrammar.Proofs.Document.RoundTrip
import IndentedGrammar.Proofs.Term.Returns

namespace IndentedGrammar

open Cursor Token

theorem Lexes.class_within_text {text : List Char} {toks : List Token} (h : Lexes text toks)
    {body : List Char} (hbody : .characterClass body ∈ toks) : body <:+: text := by
  induction h with
  | ended => exact absurd hbody List.not_mem_nil
  | @separated text toks _ _ ih => exact (ih hbody).trans (List.drop_suffix _ text).isInfix
  | @colon text toks _ ih =>
    obtain hbody := (List.mem_cons.1 hbody).resolve_left nofun
    exact (ih hbody).trans (List.suffix_cons ':' text).isInfix
  | @token tok word text toks hm _ ih =>
    rcases List.mem_cons.1 hbody with rfl | hbody
    · cases hm.spelled with
      | characterClass => exact .trans ⟨['['], [']'], rfl⟩ hm.front.isInfix
    · exact (ih hbody).trans (List.drop_suffix _ text).isInfix

theorem Token.mem_of_mem_significant {tok : Token} {toks : List Token} (h : tok ∈ significant toks) :
    tok ∈ toks := by
  fun_induction significant toks with
  | case1 => exact h
  | case2 toks ih =>
    rcases List.mem_cons.1 h with rfl | h
    · exact List.mem_cons_self
    · exact List.mem_cons_of_mem _ (List.mem_cons_of_mem _ (ih h))
  | case3 other toks _ _ ih => exact List.mem_cons_of_mem other (ih h)
  | case4 other toks _ _ ih =>
    rcases List.mem_cons.1 h with rfl | h
    · exact List.mem_cons_self
    · exact List.mem_cons_of_mem other (ih h)

namespace Rule

theorem return_not_mem_line {r : Rule} {scope : List String} (h : r.WellFormed scope)
    (hclass : ∀ body, .characterClass body ∈ r.tokens → '\r' ∉ body) : '\r' ∉ r.line := by
  have hname := return_not_mem_of_isName h.isName
  cases r with
  | terminal heading t =>
    have hterm := Term.return_not_mem_chars t h.2.2 (fun body hbody => hclass body
      (List.mem_cons_of_mem _ (List.mem_cons_of_mem _ hbody))) 0
    simp [line, hname, hterm]
  | group heading rs => simp [line, hname]

theorem return_not_mem_charsAll {rs : List Rule} (h : AllWellFormed [] rs)
    (hclass : ∀ r ∈ walkAll rs, ∀ body, .characterClass body ∈ r.tokens → '\r' ∉ body) :
    '\r' ∉ charsAll rs := by
  intro hmem
  obtain ⟨r, hr, hmem⟩ := List.mem_flatMap.1 hmem
  obtain ⟨scope, hwf⟩ := wellFormed_of_mem_walkAll rs h r hr
  rcases List.mem_append.1 hmem with hmem | hmem
  · exact return_not_mem_line hwf (hclass r hr) hmem
  · exact absurd hmem (by decide)

end Rule

namespace Document

variable {src : Source} {limit : Int} {doc : Document}

theorem class_within_source (hread : read src limit = .ok doc) (hsilent : doc.diagnostics = []) {r : Rule}
    (hr : r ∈ Rule.walkAll doc.rules) {body : List Char} (hbody : .characterClass body ∈ r.tokens) :
    body <:+: src.text := by
  obtain ⟨e, ⟨toks, hlexes, hsignificant⟩, he⟩ := (declares_of_read hread hsilent).conserves
  have hnothing : Lexes e.rest [] := by
    rw [he]
    exact .ended
  have hwhole := ((LexesTo.skipInsignificant (.start src.text)).append hlexes) [] hnothing
  have hkept := hsignificant []
  rw [List.append_nil] at hkept hwhole
  apply hwhole.class_within_text
  apply mem_of_mem_significant
  rw [List.nil_append, hkept]
  exact List.mem_append_left _ (List.mem_flatMap.2 ⟨r, hr, hbody⟩)

theorem return_not_mem_charsAll (hread : read src limit = .ok doc) (hsilent : doc.diagnostics = [])
    (h : '\r' ∉ src.text) : '\r' ∉ Rule.charsAll doc.rules := by
  obtain ⟨doc', hdoc', hfits⟩ := read_ok src limit
  obtain rfl := Except.ok.inj (hread.symm.trans hdoc')
  apply Rule.return_not_mem_charsAll (Rule.allWellFormed_iff.2 fun r hr => (hfits r hr).wellFormed)
  intro r hr body hbody hmem
  exact h ((class_within_source hread hsilent hr hbody).subset hmem)

theorem exists_read_charsAll (hread : read src limit = .ok doc) (file : Option String) :
    ∃ doc', read (.ofText (Rule.charsAll doc.rules) file) limit = .ok doc' ∧ doc'.diagnostics = [] ∧
      Rule.charsAll doc'.rules = Rule.charsAll doc.rules := by
  obtain ⟨_, hread', hfits⟩ := read_ok src limit
  obtain rfl := Except.ok.inj (hread.symm.trans hread')
  obtain ⟨doc', hdoc', hsilent, hbare, -⟩ := read_charsAll hfits file
  refine ⟨doc', hdoc', hsilent, ?_⟩
  rw [← Rule.charsAll_bare doc'.rules, hbare, Rule.charsAll_bare]

end Document

end IndentedGrammar
