import IndentedGrammar.Proofs.Rule.Silence
import IndentedGrammar.Proofs.Term.Conservation

namespace IndentedGrammar

open Cursor Token

namespace Rule

def tokens : Rule → List Token
  | .terminal heading t => .reference heading.name.toList :: .mark ':' :: t.tokens
  | .group heading _ => [.reference heading.name.toList, .mark '.', .mark '.', .mark '.']

@[simp] theorem tokens_within (parent : String) (r : Rule) : (r.within parent).tokens = r.tokens := by
  cases r <;> rfl

def Conserves (c : Cursor) (rs : List Rule) (e : Cursor) : Prop :=
  ∃ toks, c.LexesTo toks e ∧
    ∀ more, significant (toks ++ more) = rs.flatMap tokens ++ significant more

namespace Conserves

variable {c d e : Cursor} {rs rs' : List Rule}

theorem of_gap (h : c.LexesTo [] e) : Conserves c [] e := ⟨[], h, fun _ => rfl⟩

theorem append (h : Conserves c rs d) (h' : Conserves d rs' e) : Conserves c (rs ++ rs') e := by
  obtain ⟨toks, hlexes, hsignificant⟩ := h
  obtain ⟨toks', hlexes', hsignificant'⟩ := h'
  refine ⟨toks ++ toks', hlexes.append hlexes', fun more => ?_⟩
  rw [List.append_assoc, hsignificant, hsignificant', List.flatMap_append, List.append_assoc]

theorem within {r : Rule} (h : Conserves c r.walk e) (parent : String) :
    Conserves c (r.within parent).walk e := by
  obtain ⟨toks, hlexes, hsignificant⟩ := h
  refine ⟨toks, hlexes, fun more => ?_⟩
  rw [hsignificant, walk_within, List.flatMap_map]
  simp

end Conserves

theorem dottedName_eq_takeWhile {text mark : List Char}
    (hmark : mark = [':'] ∨ mark = ['.', '.', '.'])
    (h : mark <+: (text.dropWhile isNameChar).dropWhile isBlank) :
    dottedName text = (text.takeWhile isNameChar).length := by
  induction text with
  | nil => rfl
  | cons ch text ih =>
    by_cases hch : isNameChar ch
    · rw [List.dropWhile_cons_of_pos hch] at h
      rw [List.takeWhile_cons_of_pos hch, dottedName, if_pos (by simp [hch]), ih h]
      rfl
    · have hdot : ¬ (ch = '.' && text.head?.any isNameChar) := by
        rw [Bool.and_eq_true, decide_eq_true_eq, not_and]
        rintro rfl
        rw [List.dropWhile_cons_of_neg hch, List.dropWhile_cons_of_neg (by decide)] at h
        rcases hmark with rfl | rfl
        · exact absurd (List.cons_prefix_cons.1 h).1 (by decide)
        · obtain ⟨more, rfl⟩ := (List.cons_prefix_cons.1 h).2
          exact (by decide : ¬ isNameChar '.')
      rw [List.takeWhile_cons_of_neg hch, dottedName, if_neg (by simp_all)]
      rfl

theorem lexesTo_name {c : Cursor} {mark : List Char} (hc : c.startsName)
    (hmark : mark = [':'] ∨ mark = ['.', '.', '.'])
    (h : mark <+: (c.drop c.name.length).skipBlanks.rest) :
    c.LexesTo [.reference c.name] (c.drop c.name.length).skipBlanks := by
  have hrest : (c.drop c.name.length).rest = c.rest.dropWhile isNameChar :=
    drop_length_takeWhile isNameChar c.rest
  have hlength : dottedName c.rest = c.name.length :=
    dottedName_eq_takeWhile hmark (by rwa [rest_skipBlanks, hrest] at h)
  have hname : c.rest.take (dottedName c.rest) = c.name := by
    rw [hlength]
    exact List.prefix_iff_eq_take.1 (List.takeWhile_prefix isNameChar) |>.symm
  have hmunched := munched_reference c.rest hc
  rw [hname] at hmunched
  exact (LexesTo.token hmunched).append (.skipBlanks _)

theorem lexesTo_colon {c : Cursor} (h : [':'] <+: c.rest) : c.LexesTo [.mark ':'] (c.drop 1) := by
  obtain ⟨more, hmore⟩ := h
  apply LexesTo.colon
  rw [current?, ← hmore]
  rfl

theorem lexesTo_marks {c : Cursor} {marks : List Char} (hmarks : marks.all isMark)
    (h : marks <+: c.rest) : c.LexesTo (marks.map .mark) (c.drop marks.length) := by
  induction marks generalizing c with
  | nil => simpa using LexesTo.refl c
  | cons ch marks ih =>
    rw [List.all_cons, Bool.and_eq_true] at hmarks
    obtain ⟨more, hmore⟩ := h
    have hc : c.current? = some ch := by
      rw [current?, ← hmore]
      rfl
    have hfront : marks <+: c.next.rest := by
      rw [next, rest_drop, ← hmore]
      exact List.prefix_append marks more
    have hfirst := (LexesTo.mark hc hmarks.1).append (ih hmarks.2 hfront)
    rw [List.length_cons, drop_add_one]
    exact hfirst

section

variable {src : Source} {limit : Int} {c d e : Cursor} {r : Rule} {rs : List Rule} {depth : Nat}

theorem conserves_readTerminal (heading : Heading) (hname : isName heading.name.toList)
    (hlexes : c.LexesTo [.reference heading.name.toList, .mark ':'] d)
    (h : (readTerminal src limit heading depth d).Yields r e) : Conserves c r.walk e := by
  obtain ⟨-, t, hread, rfl⟩ := yields_of_readTerminal hname h
  obtain ⟨toks, hlexes', hsignificant⟩ := Term.tokens_of_read hread
  refine ⟨_, hlexes.append ((LexesTo.skipContinuedBlanks d).append hlexes'), fun more => ?_⟩
  rw [walk, List.flatMap_cons, List.flatMap_nil, List.append_nil, tokens]
  change significant (.reference heading.name.toList :: .mark ':' :: (toks ++ more)) = _
  rw [significant_cons (by simp), hsignificant]
  rfl

variable {child : Cursor → Attempt Rule} {p : Rule → Prop} (hread : ReadsRules p child)
  (hchild : ∀ {c r e}, c.IsIn src → c.startsName → (child c).Yields r e → Conserves c r.walk e)

include hread hchild

theorem Block.conserves {parent : String} {a : Attempt (List Rule)}
    (hblock : Block src parent depth child c a) (h : a.Yields rs e) :
    Conserves c (walkAll rs) e := by
  induction hblock generalizing rs with
  | ended =>
    obtain ⟨hresult, -, rfl⟩ := h
    obtain rfl : [] = rs := by simpa [Attempt.done] using hresult
    exact .of_gap (.refl _)
  | misplaced => exact absurd h.result (by simp [Attempt.misplaced, Attempt.fail])
  | @child c b hin hend hwidth hmore ih =>
    obtain ⟨r, rs, rfl, hfirst, hrest⟩ := Attempt.yields_of_cons h
    obtain ⟨r', rfl, hstart, hyields, -⟩ := yields_of_readChild hread.satisfies hfirst
    have hconserves := hchild (hin.reaches c.reaches_skipInsignificant) hstart hyields
    exact (Conserves.of_gap (.skipInsignificant c)).append
      ((hconserves.within parent).append (ih hrest))

theorem conserves_readGroup (heading : Heading) (hname : isName heading.name.toList) (hin : d.IsIn src)
    (hlexes : c.LexesTo [.reference heading.name.toList, .mark '.', .mark '.', .mark '.'] d)
    (h : (readGroup src child heading depth d).Yields r e) : Conserves c r.walk e := by
  obtain ⟨hend, rs, -, rfl, hchildren⟩ := yields_of_readGroup hname h
  have hline := d.reaches_skipBlanks.trans (reaches_skipComment _)
  have hblock := (block_readChildren hread (hin.reaches hline) hend).conserves hread hchild hchildren
  have hgap := (LexesTo.skipBlanks d).append (.skipComment _)
  have hheading : Conserves c [.group heading rs] d.skipBlanks.skipComment :=
    ⟨_, hlexes.append hgap, fun more => rfl⟩
  exact hheading.append hblock

end

theorem conserves_read (src : Source) (limit : Int) (levels depth : Nat) {c e : Cursor} {r : Rule}
    (hin : c.IsIn src) (hc : c.startsName) (h : (read src limit levels depth c).Yields r e) :
    Conserves c r.walk e := by
  induction levels generalizing depth c r e with
  | zero =>
    obtain ⟨-, levels, hlevels, -⟩ := yields_of_read hc h
    exact absurd hlevels (by simp)
  | succ levels ih =>
    have hname := isName_ofList_name hc
    have hreach := (Reaches.drop c c.name.length).trans (reaches_skipBlanks _)
    obtain ⟨-, levels', hlevels, ⟨d, hd, hterminal⟩ | ⟨d, hd, hgroup⟩⟩ := yields_of_read hc h
    · refine conserves_readTerminal ⟨String.ofList c.name, c.position, []⟩ hname ?_ hterminal
      obtain ⟨hfront, rfl⟩ := accept?_eq_some hd
      rw [String.toList_ofList]
      exact (lexesTo_name hc (.inl rfl) hfront).append (lexesTo_colon hfront)
    · obtain rfl := Nat.succ.inj hlevels
      have hin' := hin.reaches (hreach.trans (reaches_of_accept? hd))
      refine conserves_readGroup (readsRules_read src limit levels (depth + 1))
        (ih (depth + 1)) ⟨String.ofList c.name, c.position, []⟩ hname hin' ?_ hgroup
      obtain ⟨hfront, rfl⟩ := accept?_eq_some hd
      have hlexes := (lexesTo_name hc (.inr rfl) hfront).append (lexesTo_marks rfl hfront)
      rw [String.toList_ofList]
      exact hlexes

end Rule

end IndentedGrammar
