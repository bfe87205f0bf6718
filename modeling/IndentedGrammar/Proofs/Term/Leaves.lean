import IndentedGrammar.Proofs.Term.Places
import IndentedGrammar.Proofs.Term.Soundness

namespace IndentedGrammar

open Cursor Token

namespace Term

def isLeaf (t : Term) : Bool := t.children.isEmpty

def leaves (t : Term) : List Term := t.walk.filter isLeaf

def leavesAll (ts : List Term) : List Term := (walkAll ts).filter isLeaf

inductive Begins : Term → List Char → Prop
  | reference {p name text} : isDottedName name → ¬ text.head?.any isNameChar →
      Begins ⟨.reference, p, some (String.ofList name), []⟩ (name ++ text)
  | any {p text} : Begins ⟨.any, p, none, []⟩ ('.' :: text)
  | characterClass {p body text} : isClassBody body →
      Begins ⟨.characterClass, p, some (String.ofList body), []⟩ ('[' :: (body ++ ']' :: text))
  | literal {p q body text} : IsQuote q → isEnclosed q body →
      Begins ⟨.literal, p, some (String.ofList (unescape body)), []⟩ (q :: (body ++ q :: text))

/-- The terms stand one behind the other in what is passed over from one cursor to another. A node
stands where its reading began, which may be some way before its first part. -/
inductive Spans : Cursor → List Term → Cursor → Prop
  | nil {c} : Spans c [] c
  | leaf {c e t} : t.position = c.position → t.Begins c.rest → c.next.Reaches e → Spans c [t] e
  | node {c e ts kind} : ts ≠ [] → Spans c ts e → Spans c [⟨kind, c.position, none, ts⟩] e
  | cons {c d e t ts} : Spans c [t] d → Spans d ts e → Spans c (t :: ts) e
  | widen {b c d e ts} : b.Reaches c → Spans c ts d → d.Reaches e → Spans b ts e

namespace Begins

variable {t : Term} {text : List Char}

theorem children_eq (h : t.Begins text) : t.children = [] := by
  cases h <;> rfl

theorem walk_eq (h : t.Begins text) : t.walk = [t] := by
  have hchildren := h.children_eq
  obtain ⟨kind, p, text, children⟩ := t
  obtain rfl : children = [] := hchildren
  rfl

theorem ne_nil (h : t.Begins text) : text ≠ [] := by
  cases h with
  | reference hname =>
    obtain ⟨ch, more, rfl, -⟩ := exists_cons_of_head ((isDottedName_iff _).1 hname).1
    exact List.cons_ne_nil _ _
  | any | characterClass | literal => exact List.cons_ne_nil _ _

end Begins

theorem walkAll_singleton (t : Term) : walkAll [t] = t.walk := List.append_nil _

theorem leavesAll_singleton (t : Term) : leavesAll [t] = t.leaves := by
  rw [leavesAll, walkAll_singleton, leaves]

theorem leavesAll_cons (t : Term) (ts : List Term) :
    leavesAll (t :: ts) = t.leaves ++ leavesAll ts := List.filter_append ..

theorem leaves_node (kind : Kind) (p : Position) (text : Option String) {ts : List Term}
    (h : ts ≠ []) : leaves ⟨kind, p, text, ts⟩ = leavesAll ts := by
  rw [leaves, walk, List.filter_cons_of_neg (by simpa [isLeaf] using h), leavesAll]

namespace Spans

variable {c e : Cursor} {ts : List Term}

theorem single_widen {c' : Cursor} {t : Term} (h : Spans c [t] e) (he : e.Reaches c') :
    Spans c [t] c' := .widen (.refl c) h he

theorem collapse {kind : Kind} (hne : ts ≠ []) (h : Spans c ts e) :
    Spans c [Term.collapse kind c.position ts] e := by
  match ts with
  | [] => exact absurd rfl hne
  | [t] => exact h
  | t :: t' :: ts => exact .node hne h

theorem reaches (h : Spans c ts e) : c.Reaches e := by
  induction h with
  | nil => exact .refl _
  | leaf _ _ he => exact (reaches_next _).trans he
  | node _ _ ih => exact ih
  | cons _ _ ih ih' => exact ih.trans ih'
  | widen hc _ he ih => exact hc.trans (ih.trans he)

theorem offset_le (h : Spans c ts e) :
    ∀ u ∈ walkAll ts, c.position.offset ≤ u.position.offset := by
  induction h with
  | nil => simp [walkAll]
  | leaf hp hbegins _ => simp [walkAll_singleton, hbegins.walk_eq, hp]
  | node _ _ ih => simpa [walkAll_singleton, walk] using ih
  | cons ht _ ih ih' =>
    intro u hu
    rcases List.mem_append.1 hu with hu | hu
    · exact ih u (by rwa [walkAll_singleton])
    · exact Nat.le_trans ht.reaches.offset_le (ih' u hu)
  | widen hc _ _ ih => exact fun u hu => Nat.le_trans hc.offset_le (ih u hu)

theorem offset_le_children (h : Spans c ts e) :
    ∀ u ∈ walkAll ts, ∀ v ∈ u.children, u.position.offset ≤ v.position.offset := by
  induction h with
  | nil => simp [walkAll]
  | leaf hp hbegins _ => simp [walkAll_singleton, hbegins.walk_eq, hbegins.children_eq]
  | @node c e ts kind hne hts ih =>
    intro u hu v hv
    rw [walkAll_singleton, walk, List.mem_cons] at hu
    rcases hu with rfl | hu
    · refine hts.offset_le v ?_
      rw [walkAll_eq_flatMap, List.mem_flatMap]
      exact ⟨v, hv, v.mem_walk_self⟩
    · exact ih u hu v hv
  | cons _ _ ih ih' =>
    intro u hu
    rcases List.mem_append.1 hu with hu | hu
    · exact ih u (by rwa [walkAll_singleton])
    · exact ih' u hu
  | widen _ _ _ ih => exact ih

theorem begins (h : Spans c ts e) : ∀ u ∈ leavesAll ts,
    ∃ b, c.Reaches b ∧ b.next.Reaches e ∧ u.position = b.position ∧ u.Begins b.rest := by
  induction h with
  | nil => simp [leavesAll, walkAll]
  | @leaf c e t hp hbegins he =>
    intro u hu
    rw [leavesAll_singleton, leaves, hbegins.walk_eq] at hu
    obtain rfl := List.mem_singleton.1 (List.mem_filter.1 hu).1
    exact ⟨c, .refl c, he, hp, hbegins⟩
  | node hne _ ih => rwa [leavesAll_singleton, leaves_node _ _ _ hne]
  | cons ht hts ih ih' =>
    intro u hu
    rw [leavesAll_cons, List.mem_append, ← leavesAll_singleton] at hu
    rcases hu with hu | hu
    · obtain ⟨b, hb, he, hu⟩ := ih u hu
      exact ⟨b, hb, he.trans hts.reaches, hu⟩
    · obtain ⟨b, hb, hu⟩ := ih' u hu
      exact ⟨b, ht.reaches.trans hb, hu⟩
  | widen hc _ he ih =>
    intro u hu
    obtain ⟨b, hb, hd, hu⟩ := ih u hu
    exact ⟨b, hc.trans hb, hd.trans he, hu⟩

theorem leaf_between (h : Spans c ts e) {u : Term} (hu : u ∈ leavesAll ts) :
    c.position.offset ≤ u.position.offset ∧ u.position.offset < e.position.offset := by
  obtain ⟨b, hb, he, hp, hbegins⟩ := h.begins u hu
  rw [hp]
  exact ⟨hb.offset_le, offset_lt_of_next hbegins.ne_nil he⟩

theorem ordered (h : Spans c ts e) :
    (leavesAll ts).Pairwise fun u v => u.position.offset < v.position.offset := by
  induction h with
  | nil => exact .nil
  | leaf _ hbegins _ =>
    rw [leavesAll_singleton, leaves, hbegins.walk_eq]
    exact (List.pairwise_singleton ..).filter _
  | node hne _ ih => rwa [leavesAll_singleton, leaves_node _ _ _ hne]
  | cons ht hts ih ih' =>
    rw [leavesAll_cons, ← leavesAll_singleton]
    refine List.pairwise_append.2 ⟨ih, ih', ?_⟩
    intro u hu v hv
    exact Nat.lt_of_lt_of_le (ht.leaf_between hu).2 (hts.leaf_between hv).1
  | widen _ _ _ ih => exact ih

end Spans

theorem spans_readReference {c e : Cursor} {t : Term} (hc : c.rest.head?.any isNameChar)
    (h : readReference c = .done t e) : Spans c [t] e := by
  obtain ⟨rfl, rfl⟩ := Reading.done.inj h
  have hbegins := Begins.reference (p := c.position) (isDottedName_take hc)
    (not_isNameChar_drop_dottedName c.rest)
  rw [List.take_append_drop] at hbegins
  obtain ⟨n, hn⟩ := Nat.exists_eq_succ_of_ne_zero (Nat.ne_of_gt (dottedName_pos_of_head hc))
  refine .leaf rfl hbegins ?_
  rw [hn, drop_add_one]
  exact .drop c.next n

theorem spans_readDelimited {close : Char} {kind : Kind} {value : List Char → List Char}
    {unterminated empty : Problem} {c e : Cursor} {t : Term}
    (h : readDelimited close kind value unterminated empty c = .done t e)
    (hbegins : ∀ body text, isEnclosed close body → c.next.rest = body ++ close :: text →
      Begins ⟨kind, c.position, some (String.ofList (value body)), []⟩ c.rest) :
    Spans c [t] e := by
  obtain ⟨body, hbody, -, rfl, rfl⟩ := body_of_readDelimited h
  obtain ⟨henclosed, text, htext⟩ := enclosed_of_delimited? hbody
  refine .leaf rfl (hbegins body text henclosed htext) ?_
  rw [drop_add_one]
  exact .drop c.next _

section

variable {src : Source} {margin : Nat} {group : Cursor → Reading Term}
  (hg : ∀ c t e, group c = .done t e → Spans c [t] e)

include hg

theorem spans_readAtom {c e : Cursor} {t : Term} (h : readAtom group c = .done t e) :
    Spans c [t] e := by
  rw [readAtom] at h
  split at h
  · simp at h
  next ch hch =>
  have hrest := rest_of_current? hch
  split at h
  · next hname => exact spans_readReference (by simp [hrest, hname]) h
  split at h
  · next hquote =>
    refine spans_readDelimited h fun body text henclosed htext => ?_
    rw [hrest, htext]
    exact .literal hquote henclosed
  split at h
  · next hbracket =>
    refine spans_readDelimited h fun body text henclosed htext => ?_
    rw [hrest, htext, hbracket]
    exact .characterClass (by rwa [isClassBody_eq_isEnclosed])
  split at h
  · next hdot =>
    obtain ⟨rfl, rfl⟩ := Reading.done.inj h
    refine .leaf rfl ?_ (.refl c.next)
    rw [hrest, hdot]
    exact .any
  split at h
  · exact hg c t e h
  · simp at h

theorem spans_readRepeated {c e : Cursor} {t : Term}
    (h : readRepeated src margin group c = .done t e) : Spans c [t] e := by
  rw [readRepeated] at h
  split at h
  · simp at h
  · next t' d hatom =>
    have hatom := spans_readAtom hg hatom
    split at h
    · obtain ⟨rfl, rfl⟩ := Reading.done.inj h
      have hgap := d.reaches_next.trans (reaches_skipGap src margin _)
      exact .node (by simp) (hatom.single_widen hgap)
    · obtain ⟨rfl, rfl⟩ := Reading.done.inj h
      exact hatom.single_widen (reaches_skipGap ..)

theorem spans_readPart {c e : Cursor} {t : Term} (h : readPart src margin group c = .done t e) :
    Spans c [t] e := by
  rw [readPart] at h
  split at h
  · exact spans_readRepeated hg h
  split at h
  · simp at h
  · next t' d hrepeated =>
    obtain ⟨rfl, rfl⟩ := Reading.done.inj h
    have hgap := c.reaches_next.trans (reaches_skipGap src margin _)
    exact .node (by simp) (.widen hgap (spans_readRepeated hg hrepeated) (.refl d))

theorem spans_readParts {c e : Cursor} {ts : List Term}
    (h : readParts src margin group c = .done ts e) : Spans c ts e := by
  fun_induction readParts src margin group c generalizing ts e with
  | case1 => simp at h
  | case2 => simp at h
  | case3 c hstart t d hpart hlt ts' e' hparts ih =>
    obtain ⟨rfl, rfl⟩ := Reading.done.inj h
    exact .cons (spans_readPart hg hpart) (ih hparts)
  | case4 c hstart t d hpart hlt =>
    obtain ⟨rfl, rfl⟩ := Reading.done.inj h
    exact spans_readPart hg hpart
  | case5 =>
    obtain ⟨rfl, rfl⟩ := Reading.done.inj h
    exact .nil

theorem spans_readSequence {c e : Cursor} {t : Term}
    (h : readSequence src margin group c = .done t e) : Spans c [t] e := by
  rw [readSequence] at h
  split at h
  · simp at h
  · simp at h
  · next hne hparts =>
    obtain ⟨rfl, rfl⟩ := Reading.done.inj h
    exact (spans_readParts hg hparts).collapse hne

theorem spans_readAlternatives {c e : Cursor} {ts : List Term}
    (h : readAlternatives src margin group c = .done ts e) : Spans c ts e := by
  have hbar (d : Cursor) : d.Reaches (d.next.skipGap src margin) :=
    d.reaches_next.trans (reaches_skipGap ..)
  fun_induction readAlternatives src margin group c generalizing ts e with
  | case1 => simp at h
  | case2 => simp at h
  | case3 c t d hsequence _ _ _ ts' e' halternatives =>
    rename_i ih
    obtain ⟨rfl, rfl⟩ := Reading.done.inj h
    exact .cons ((spans_readSequence hg hsequence).single_widen (hbar d)) (ih halternatives)
  | case4 c t d hsequence =>
    obtain ⟨rfl, rfl⟩ := Reading.done.inj h
    exact (spans_readSequence hg hsequence).single_widen (hbar d)
  | case5 c t d hsequence =>
    obtain ⟨rfl, rfl⟩ := Reading.done.inj h
    exact spans_readSequence hg hsequence

theorem spans_readChoice {c e : Cursor} {t : Term}
    (h : readChoice src margin group c = .done t e) : Spans c [t] e := by
  rw [readChoice] at h
  split at h
  · simp at h
  · next ts d halternatives =>
    obtain ⟨rfl, rfl⟩ := Reading.done.inj h
    exact (spans_readAlternatives hg halternatives).collapse (ne_nil_of_readAlternatives halternatives)

theorem spans_readGroup {c e : Cursor} {t : Term}
    (h : readGroup src margin group c = .done t e) : Spans c [t] e := by
  rw [readGroup] at h
  split at h
  · simp at h
  · next t' d hinner =>
    split at h
    · obtain ⟨rfl, rfl⟩ := Reading.done.inj h
      have hgap := c.reaches_next.trans (reaches_skipGap src margin _)
      exact .widen hgap (hg _ _ _ hinner) d.reaches_next
    · simp at h

end

variable {src : Source} {margin : Nat} {c e : Cursor} {t : Term}

theorem spans_choiceWithin {limit : Int} {levels : Nat}
    (h : choiceWithin src margin limit levels c = .done t e) : Spans c [t] e := by
  induction levels generalizing c t e with
  | zero => exact spans_readChoice (by simp) h
  | succ levels ih => exact spans_readChoice (fun _ _ _ => spans_readGroup fun _ _ _ => ih) h

theorem spans_read {limit : Int} {newlineFirst : Bool}
    (h : read src limit newlineFirst c = .done t e) : Spans c [t] e := by
  rw [read] at h
  split at h
  · simp at h
  obtain ⟨hchoice, -⟩ := atLineEnd_of_finish h
  have hgap := (c.reaches_skipContinuedBlanks.trans (reaches_skipComment _)).trans
    (reaches_skipGap src (src.indentation c.position.line) _)
  refine .widen ?_ (spans_choiceWithin hchoice) (.refl e)
  split
  · exact hgap.trans ((reaches_next _).trans (reaches_skipGap ..))
  · exact hgap

theorem WellFormed.of_reference (h : t.WellFormed) (hkind : t.kind = .reference) :
    ∃ name, name ≠ "" ∧ t.text = some name ∧ t.isLeaf := by
  obtain ⟨kind, p, text, children⟩ := t
  obtain rfl : kind = .reference := hkind
  rw [WellFormed] at h
  obtain ⟨htext, hchildren, -⟩ := h
  obtain ⟨name, rfl, hname⟩ := (Option.any_eq_true _ _).1 htext
  refine ⟨name, ?_, rfl, by simpa [isLeaf, fitsChildren] using hchildren⟩
  rintro rfl
  exact absurd hname (by decide)

theorem map_references (h : t.WellFormed) :
    t.references.map some = (t.leaves.filter (·.kind = .reference)).map text := by
  have hall := wellFormed_of_mem_walk t h
  rw [references, leaves]
  generalize t.walk = us at hall
  induction us with
  | nil => rfl
  | cons u us ih =>
    obtain ⟨hu, hus⟩ := List.forall_mem_cons.1 hall
    by_cases hkind : u.kind = .reference
    · obtain ⟨name, hname, htext, hleaf⟩ := hu.of_reference hkind
      simp [hkind, htext, hname, hleaf, ih hus]
    · rw [List.filterMap_cons_none, ih hus]
      · cases hleaf : u.isLeaf <;> simp [hkind, hleaf]
      · split <;> simp_all

structure Faithful (src : Source) (c e : Cursor) (t : Term) : Prop where
  inOrder : t.leaves.Pairwise fun u v => u.position.offset < v.position.offset
  between : ∀ u ∈ t.leaves,
    c.position.offset ≤ u.position.offset ∧ u.position.offset < e.position.offset
  begins : ∀ u ∈ t.leaves, u.Begins (src.text.drop u.position.offset)
  above : ∀ u ∈ t.walk, ∀ v ∈ u.children, u.position.offset ≤ v.position.offset
  references : t.references.map some = (t.leaves.filter (·.kind = .reference)).map text

theorem Spans.faithful (h : Spans c [t] e) (hin : c.IsIn src) (ht : t.WellFormed) :
    t.Faithful src c e where
  inOrder := by
    rw [← leavesAll_singleton]
    exact h.ordered
  between u hu := by
    rw [← leavesAll_singleton] at hu
    exact h.leaf_between hu
  begins u hu := by
    rw [← leavesAll_singleton] at hu
    obtain ⟨b, hb, -, hp, hbegins⟩ := h.begins u hu
    rwa [hp, ← (hin.reaches hb).rest_eq]
  above := by
    rw [← walkAll_singleton]
    exact h.offset_le_children
  references := map_references ht

/-- What the reader of terms returns is faithful to the source. -/
theorem read_faithful {limit : Int} {newlineFirst : Bool} (hin : c.IsIn src)
    (h : read src limit newlineFirst c = .done t e) : t.Faithful src c e :=
  (spans_read h).faithful hin (wellFormed_of_read h)

theorem read_faithful_continued :
    let src := Source.ofText "a !('b\\n' |\n [c] x.y)*".toList none
    ∃ t e, (Cursor.start src.text).IsIn src ∧ read src 1 false (.start src.text) = .done t e ∧
      t.Faithful src (.start src.text) e ∧ t.references = ["a", "x.y"] := by
  intro src
  have hnames : (read src 1 false (.start src.text)).casesOn (motive := fun _ => Bool)
      (fun t _ => t.references = ["a", "x.y"]) (fun _ _ => false) = true := by decide +kernel
  cases h : read src 1 false (.start src.text) with
  | done t e =>
    rw [h] at hnames
    exact ⟨t, e, .start src, rfl, read_faithful (.start src) h, of_decide_eq_true hnames⟩
  | failed d e => simp [h] at hnames

end Term

end IndentedGrammar
