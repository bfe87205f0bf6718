import IndentedGrammar.Proofs.Source.Places
import IndentedGrammar.Proofs.Term.Progress

namespace IndentedGrammar

open Cursor

def Reading.Located {α : Type} (nodes : α → List Term) (c : Cursor) : Reading α → Prop
  | .done x e => ∀ t ∈ nodes x, c.Holds e t.position
  | .failed d e => ∃ b, c.Reaches b ∧ b.Reaches e ∧ b.position = d.position

namespace Reading

variable {α : Type} {nodes : α → List Term} {c : Cursor}

theorem Located.widen {c' : Cursor} {r : Reading α} (h : r.Located nodes c) (hc : c'.Reaches c) :
    r.Located nodes c' := by
  cases r with
  | done x e => exact fun t ht => (h t ht).widen hc (.refl e)
  | failed d e =>
    obtain ⟨b, hb, he, hp⟩ := h
    exact ⟨b, hc.trans hb, he, hp⟩

theorem located_failed {b : Cursor} (problem : Problem) (h : c.Reaches b) :
    (failed ⟨b.position, problem⟩ b : Reading α).Located nodes c :=
  ⟨b, h, .refl b, rfl⟩

end Reading

open Reading

namespace Term

theorem mem_walk_self (t : Term) : t ∈ t.walk := by
  cases t
  simp [walk]

variable {c e : Cursor}

theorem holds_node {kind : Kind} {text : Option String} {ts : List Term} (hc : c.rest ≠ [])
    (he : c.Reaches e) (h : ∀ t ∈ walkAll ts, c.Holds e t.position) :
    ∀ t ∈ walk ⟨kind, c.position, text, ts⟩, c.Holds e t.position := by
  intro t ht
  rcases List.mem_cons.1 ht with rfl | ht
  · exact .first hc he
  · exact h t ht

theorem holds_leaf {kind : Kind} {text : Option String} (hc : c.rest ≠ []) (he : c.Reaches e) :
    ∀ t ∈ walk ⟨kind, c.position, text, []⟩, c.Holds e t.position :=
  holds_node hc he fun _ ht => absurd ht List.not_mem_nil

theorem holds_collapse (kind : Kind) {ts : List Term} (hne : ts ≠ []) (he : c.Reaches e)
    (h : ∀ t ∈ walkAll ts, c.Holds e t.position) :
    ∀ t ∈ (collapse kind c.position ts).walk, c.Holds e t.position := by
  match ts with
  | [] => exact absurd rfl hne
  | [t] =>
    rw [walkAll, walkAll, List.append_nil] at h
    exact h
  | t :: t' :: ts =>
    have hfirst := h t (List.mem_append_left _ t.mem_walk_self)
    exact holds_node hfirst.rest_ne_nil he h

theorem ne_nil_of_readAlternatives {src : Source} {margin : Nat} {group : Cursor → Reading Term}
    {ts : List Term} (h : readAlternatives src margin group c = .done ts e) : ts ≠ [] := by
  rintro rfl
  rw [readAlternatives] at h
  split at h
  · simp at h
  split at h
  · dsimp only at h
    split at h
    · split at h <;> simp at h
    · simp at h
  · simp at h

variable (src : Source) (margin : Nat)

theorem located_readDelimited (close : Char) (kind : Kind) (value : List Char → List Char)
    (unterminated empty : Problem) (hc : c.rest ≠ []) :
    (readDelimited close kind value unterminated empty c).Located walk c := by
  rw [readDelimited]
  split
  · exact ⟨c, .refl c, c.reaches_skipLine, rfl⟩
  · exact ⟨c, .refl c, .drop c 2, rfl⟩
  · exact holds_leaf hc (.drop c _)

section

variable {group : Cursor → Reading Term} (hl : ∀ c, (group c).Located walk c)
  (hg : ∀ c : Cursor, c.Reaches (group c).cursor)

include hl

theorem located_readAtom (c : Cursor) : (readAtom group c).Located walk c := by
  rw [readAtom]
  split
  · exact located_failed _ (.refl c)
  next ch hch =>
  have hc := rest_ne_nil_of_current? hch
  split
  · exact holds_leaf hc (.drop c _)
  split
  · exact located_readDelimited _ _ _ _ _ hc
  split
  · exact located_readDelimited _ _ _ _ _ hc
  split
  · exact holds_leaf hc c.reaches_next
  split
  · exact hl c
  · exact located_failed _ (.refl c)

include hg

theorem located_readRepeated (c : Cursor) : (readRepeated src margin group c).Located walk c := by
  have hatom := located_readAtom hl c
  have hreach := reaches_readAtom hg c
  rw [readRepeated]
  generalize readAtom group c = r at hatom hreach
  cases r with
  | failed d e => exact hatom
  | done t e =>
    dsimp only
    split
    · have hgap := e.reaches_next.trans (reaches_skipGap src margin _)
      refine holds_node (hatom t t.mem_walk_self).rest_ne_nil (hreach.trans hgap) ?_
      rw [walkAll, walkAll, List.append_nil]
      exact fun u hu => (hatom u hu).widen (.refl c) hgap
    · exact fun u hu => (hatom u hu).widen (.refl c) (reaches_skipGap ..)

theorem located_readPart (c : Cursor) : (readPart src margin group c).Located walk c := by
  rw [readPart]
  split
  · exact located_readRepeated src margin hl hg c
  · next p hp =>
    have hgap := c.reaches_next.trans (reaches_skipGap src margin _)
    have hrepeated := (located_readRepeated src margin hl hg (c.next.skipGap src margin)).widen hgap
    have hreach := hgap.trans (reaches_readRepeated src margin hg (c.next.skipGap src margin))
    generalize readRepeated src margin group _ = r at hrepeated hreach
    cases r with
    | failed d e => exact hrepeated
    | done t e =>
      refine holds_node (hrepeated t t.mem_walk_self).rest_ne_nil hreach ?_
      rw [walkAll, walkAll, List.append_nil]
      exact hrepeated

theorem located_readParts (c : Cursor) : (readParts src margin group c).Located walkAll c := by
  have hpart := located_readPart src margin hl hg
  have hreach := reaches_readPart src margin hg
  have hmore := reaches_readParts src margin hg
  fun_induction readParts src margin group c with
  | case1 c hstart d e hc =>
    have hfailed := hpart c
    rwa [hc] at hfailed
  | case2 c hstart t e hc hlt d e' hparts ih =>
    rw [hparts] at ih
    exact ih.widen (by simpa [hc] using hreach c)
  | case3 c hstart t e hc hlt ts e' hparts ih =>
    have hfirst := hpart c
    have hc' : c.Reaches e := by simpa [hc] using hreach c
    have he' : e.Reaches e' := by simpa [hparts] using hmore e
    rw [hc] at hfirst
    rw [hparts] at ih
    intro u hu
    rcases List.mem_append.1 hu with hu | hu
    · exact (hfirst u hu).widen (.refl c) he'
    · exact (ih u hu).widen hc' (.refl e')
  | case4 c hstart t e hc =>
    have hfirst := hpart c
    rw [hc] at hfirst
    intro u hu
    rw [walkAll, walkAll, List.append_nil] at hu
    exact hfirst u hu
  | case5 => exact fun _ hu => absurd hu List.not_mem_nil

theorem located_readSequence (c : Cursor) : (readSequence src margin group c).Located walk c := by
  have hparts := located_readParts src margin hl hg c
  have hreach := reaches_readParts src margin hg c
  rw [readSequence]
  generalize readParts src margin group c = r at hparts hreach
  split
  · exact hparts
  · exact located_failed _ hreach
  · next hne => exact holds_collapse _ hne hreach hparts

theorem located_readAlternatives (c : Cursor) :
    (readAlternatives src margin group c).Located walkAll c := by
  have hsequence := located_readSequence src margin hl hg
  have hreach := reaches_readSequence src margin hg
  have hmore := reaches_readAlternatives src margin hg
  have hlast {c e e' : Cursor} {t : Term} (hc : readSequence src margin group c = .done t e)
      (he : e.Reaches e') : ∀ u ∈ t.walk, c.Holds e' u.position := by
    have hfirst := hsequence c
    rw [hc] at hfirst
    exact fun u hu => (hfirst u hu).widen (.refl c) he
  fun_induction readAlternatives src margin group c with
  | case1 c d e hc =>
    have hfailed := hsequence c
    rwa [hc] at hfailed
  | case2 c t e hc _ _ hlt d e' halternatives ih =>
    have hc' : c.Reaches e := by simpa [hc] using hreach c
    rw [halternatives] at ih
    exact ih.widen (hc'.trans (e.reaches_next.trans (reaches_skipGap ..)))
  | case3 c t e hc _ d hlt ts e' halternatives ih =>
    have hc' : c.Reaches e := by simpa [hc] using hreach c
    have hd : e.Reaches d := e.reaches_next.trans (reaches_skipGap ..)
    have he' : d.Reaches e' := by simpa [halternatives] using hmore d
    rw [halternatives] at ih
    intro u hu
    rcases List.mem_append.1 hu with hu | hu
    · exact hlast hc (hd.trans he') u hu
    · exact (ih u hu).widen (hc'.trans hd) (.refl e')
  | case4 c t e hc =>
    intro u hu
    rw [walkAll, walkAll, List.append_nil] at hu
    exact hlast hc (e.reaches_next.trans (reaches_skipGap ..)) u hu
  | case5 c t e hc =>
    intro u hu
    rw [walkAll, walkAll, List.append_nil] at hu
    exact hlast hc (.refl e) u hu

theorem located_readChoice (c : Cursor) : (readChoice src margin group c).Located walk c := by
  have halternatives := located_readAlternatives src margin hl hg c
  have hreach := reaches_readAlternatives src margin hg c
  have hne {ts : List Term} {e : Cursor} :
      readAlternatives src margin group c = .done ts e → ts ≠ [] := ne_nil_of_readAlternatives
  rw [readChoice]
  generalize readAlternatives src margin group c = r at halternatives hreach hne
  cases r with
  | failed d e => exact halternatives
  | done ts e => exact holds_collapse _ (hne rfl) hreach halternatives

theorem located_readGroup (c : Cursor) :
    (readGroup src margin group c).Located walk c := by
  have hgap := c.reaches_next.trans (reaches_skipGap src margin _)
  have hinner := (hl (c.next.skipGap src margin)).widen hgap
  have hreach := hgap.trans (hg (c.next.skipGap src margin))
  rw [readGroup]
  generalize group (c.next.skipGap src margin) = r at hinner hreach
  cases r with
  | failed d e => exact hinner
  | done t e =>
    dsimp only
    split
    · exact fun u hu => (hinner u hu).widen (.refl c) e.reaches_next
    · exact located_failed _ hreach

end

theorem located_choiceWithin (limit : Int) (levels : Nat) (c : Cursor) :
    (choiceWithin src margin limit levels c).Located walk c := by
  induction levels generalizing c with
  | zero =>
    apply located_readChoice
    · exact fun c => located_failed _ (.refl c)
    · exact fun c => .refl c
  | succ levels ih =>
    have hreach := reaches_choiceWithin src margin limit levels
    exact located_readChoice src margin (located_readGroup src margin ih hreach)
      (reaches_readGroup src margin hreach) c

theorem located_read (limit : Int) (newlineFirst : Bool) (c : Cursor) :
    (read src limit newlineFirst c).Located walk c := by
  have hfirst := c.reaches_skipContinuedBlanks.trans (reaches_skipComment _)
  rw [read]
  dsimp only
  split
  · exact located_failed _ hfirst
  have hgap := hfirst.trans (reaches_skipGap src (src.indentation c.position.line) _)
  generalize c.skipContinuedBlanks.skipComment.skipGap _ _ = d at hgap
  have hstart : c.Reaches
      (if d.current? = some '|' then d.next.skipGap src (src.indentation c.position.line)
        else d) := by
    split
    · exact hgap.trans (d.reaches_next.trans (reaches_skipGap ..))
    · exact hgap
  generalize (if d.current? = some '|' then _ else d) = c' at hstart
  have hchoice := (located_choiceWithin src (src.indentation c.position.line) limit limit.toNat
    c').widen hstart
  have hreach := hstart.trans
    (reaches_choiceWithin src (src.indentation c.position.line) limit limit.toNat c')
  generalize choiceWithin src _ limit _ _ = r at hchoice hreach
  cases r with
  | failed e c' => exact hchoice
  | done t c' =>
    dsimp only
    split
    · exact hchoice
    · exact hchoice
    · exact located_failed _ hreach

end Term

end IndentedGrammar
