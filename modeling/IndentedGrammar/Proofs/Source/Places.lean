import IndentedGrammar.Proofs.Source.Content

namespace IndentedGrammar.Cursor

def Holds (c e : Cursor) (p : Position) : Prop :=
  ∃ b, c.Reaches b ∧ b.Reaches e ∧ b.rest ≠ [] ∧ b.position = p

namespace Holds

variable {c e : Cursor} {p : Position}

theorem first (hc : c.rest ≠ []) (he : c.Reaches e) : c.Holds e c.position :=
  ⟨c, .refl c, he, hc, rfl⟩

theorem widen {c' e' : Cursor} (h : c.Holds e p) (hc : c'.Reaches c) (he : e.Reaches e') :
    c'.Holds e' p := by
  obtain ⟨b, hb, hb', hne, hp⟩ := h
  exact ⟨b, hc.trans hb, hb'.trans he, hne, hp⟩

theorem rest_ne_nil (h : c.Holds e p) : c.rest ≠ [] := by
  obtain ⟨b, hb, -, hne, -⟩ := h
  intro hnil
  have hsuffix := hb.suffix
  rw [hnil, List.suffix_nil] at hsuffix
  exact hne hsuffix

end Holds

structure Passes (c e : Cursor) (ps : List Position) : Prop where
  between : ∀ p ∈ ps, ∃ d, c.Reaches d ∧ d.Reaches e ∧ d.position = p
  lines : ps.Pairwise fun p q => p.line < q.line

namespace Passes

variable {c d e : Cursor} {ps qs : List Position}

theorem nil (c e : Cursor) : c.Passes e [] := ⟨by simp, .nil⟩

theorem single (h : c.Reaches d) (h' : d.Reaches e) : c.Passes e [d.position] := by
  refine ⟨?_, List.pairwise_singleton ..⟩
  intro p hp
  obtain rfl := List.mem_singleton.1 hp
  exact ⟨d, h, h', rfl⟩

theorem widen {c' e' : Cursor} (h : c.Passes e ps) (hc : c'.Reaches c) (he : e.Reaches e') :
    c'.Passes e' ps := by
  refine ⟨?_, h.lines⟩
  intro p hp
  obtain ⟨b, hb, hb', rfl⟩ := h.between p hp
  exact ⟨b, hc.trans hb, hb'.trans he, rfl⟩

theorem line_le {p : Position} (h : c.Passes e ps) (hp : p ∈ ps) :
    c.position.line ≤ p.line ∧ p.line ≤ e.position.line := by
  obtain ⟨b, hb, hb', rfl⟩ := h.between p hp
  exact ⟨hb.line_le, hb'.line_le⟩

theorem sublist (h : c.Passes e ps) (hqs : qs.Sublist ps) : c.Passes e qs :=
  ⟨fun p hp => h.between p (hqs.mem hp), h.lines.sublist hqs⟩

theorem append (h : c.Passes d ps) (h' : d.Passes e qs)
    (hlt : ∀ q ∈ qs, d.position.line < q.line) (hd : c.Reaches d) (he : d.Reaches e) :
    c.Passes e (ps ++ qs) := by
  have hfirst := h.widen (.refl c) he
  have hsecond := h'.widen hd (.refl e)
  refine ⟨?_, List.pairwise_append.2 ⟨h.lines, h'.lines, ?_⟩⟩
  · intro p hp
    rcases List.mem_append.1 hp with hp | hp
    · exact hfirst.between p hp
    · exact hsecond.between p hp
  · intro p hp q hq
    exact Int.lt_of_le_of_lt (h.line_le hp).2 (hlt q hq)

end Passes

variable {src : Source} {c d : Cursor}

theorem IsIn.reaches_or_reaches (h : c.IsIn src) (h' : d.IsIn src) :
    c.Reaches d ∨ d.Reaches c := by
  obtain ⟨m, rfl⟩ := h
  obtain ⟨n, rfl⟩ := h'
  rcases Nat.le_total m n with hle | hle
  · exact .inl ⟨n - m, by rw [drop_drop, Nat.add_sub_cancel' hle]⟩
  · exact .inr ⟨m - n, by rw [drop_drop, Nat.add_sub_cancel' hle]⟩

theorem IsIn.offset_lt (h : c.IsIn src) (h' : d.IsIn src) (hlt : c.position.line < d.position.line) :
    c.position.offset < d.position.offset := by
  rcases h.reaches_or_reaches h' with ⟨n, rfl⟩ | hd
  · rw [position_drop, line_afterAll] at hlt
    rw [position_drop, Position.offset_afterAll]
    have hpos : 0 < (c.rest.take n).count '\n' := by omega
    have hlength := List.count_le_length (a := '\n') (l := c.rest.take n)
    omega
  · exact absurd hd.line_le (Int.not_le.2 hlt)

end IndentedGrammar.Cursor
