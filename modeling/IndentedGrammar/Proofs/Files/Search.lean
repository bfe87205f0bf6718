import IndentedGrammar.Files.Search
import IndentedGrammar.Proofs.Files.Place
import Mathlib.Data.List.Basic

/-! What a search finds. `Matches` says what patterns stand for in a tree; main statement: a search that comes
to its end has found all of that and nothing else. -/

namespace IndentedGrammar

section

variable {ε α β : Type} {f : α → Except ε β} {xs : List α}

theorem exists_of_bind_eq_ok {x : Except ε α} {b : β} (h : x >>= f = .ok b) :
    ∃ a, x = .ok a ∧ f a = .ok b := by
  cases x with
  | error e => exact nomatch h
  | ok a => exact ⟨a, rfl, h⟩

theorem error_of_bind_eq_error {x : Except ε α} {e : ε} (h : x >>= f = .error e) :
    x = .error e ∨ ∃ a, x = .ok a ∧ f a = .error e := by
  cases x with
  | error e' =>
    obtain rfl := Except.error.inj h
    exact .inl rfl
  | ok a => exact .inr ⟨a, rfl, h⟩

theorem exists_bind_iff {x : Except ε α} :
    (∃ b, x >>= f = .ok b) ↔ ∃ a, x = .ok a ∧ ∃ b, f a = .ok b := by
  constructor
  · rintro ⟨b, h⟩
    obtain ⟨a, hx, h⟩ := exists_of_bind_eq_ok h
    exact ⟨a, hx, b, h⟩
  · rintro ⟨a, rfl, b, h⟩
    exact ⟨b, h⟩

theorem exists_mapM_iff : (∃ ys, xs.mapM f = .ok ys) ↔ ∀ x ∈ xs, ∃ y, f x = .ok y := by
  induction xs with
  | nil => exact iff_of_true ⟨[], rfl⟩ (List.forall_mem_nil _)
  | cons x xs ih =>
    rw [List.mapM_cons, List.forall_mem_cons, ← ih]
    constructor
    · rintro ⟨ys, h⟩
      obtain ⟨y, hy, h⟩ := exists_of_bind_eq_ok h
      obtain ⟨more, hmore, -⟩ := exists_of_bind_eq_ok h
      exact ⟨⟨y, hy⟩, more, hmore⟩
    · rintro ⟨⟨y, hy⟩, more, hmore⟩
      exact ⟨y :: more, by rw [hy, hmore]; rfl⟩

theorem mem_flatten_of_mapM {f : α → Except ε (List β)} {yss : List (List β)}
    (h : xs.mapM f = .ok yss) {y : β} :
    y ∈ yss.flatten ↔ ∃ x ∈ xs, ∃ ys, f x = .ok ys ∧ y ∈ ys := by
  induction xs generalizing yss with
  | nil =>
    obtain rfl := Except.ok.inj h
    simp
  | cons x xs ih =>
    rw [List.mapM_cons] at h
    obtain ⟨ys, hys, h⟩ := exists_of_bind_eq_ok h
    obtain ⟨more, hmore, h⟩ := exists_of_bind_eq_ok h
    obtain rfl := Except.ok.inj h
    rw [List.flatten_cons, List.mem_append, ih hmore, List.exists_mem_cons_iff]
    simp [hys]

end

namespace Path

@[simp] theorem below_nil (p : Path) : p.below [] = p := by simp [below]

@[simp] theorem below_below (p : Path) (parts more : List String) :
    (p.below parts).below more = p.below (parts ++ more) := by simp [below]

theorem Clean.below {p : Path} {parts : List String} (h : p.Clean) (hparts : ∀ part ∈ parts, IsPart part) :
    (p.below parts).Clean := ⟨h.1, List.forall_mem_append.2 ⟨h.2, hparts⟩⟩

end Path

namespace FileTree

/-- The components lead from `here` to the last tree and fit the patterns. Names of a directory are never
`..`, so that only a pattern that says so goes back up. -/
inductive Matches : List String → List FileTree → FileTree → List String → FileTree → Prop
  | nil {above t} : Matches [] above t [] t
  | slash {patterns above entries} :
      Matches ("" :: patterns) above (.directory entries) [] (.directory entries)
  | skip {patterns above entries parts t} : Matches patterns above (.directory entries) parts t →
      Matches ("**" :: patterns) above (.directory entries) parts t
  | deeper {patterns above entries name there parts t} : (name, there) ∈ entries →
      Matches ("**" :: patterns) (.directory entries :: above) there parts t →
      Matches ("**" :: patterns) above (.directory entries) (name :: parts) t
  | wild {pattern patterns above entries name there parts t} : pattern ≠ "**" → isWild pattern →
      globMatches pattern name → (name, there) ∈ entries →
      Matches patterns (.directory entries :: above) there parts t →
      Matches (pattern :: patterns) above (.directory entries) (name :: parts) t
  | exact {pattern patterns above above' here there parts t} : pattern ≠ "" → ¬ isWild pattern →
      NoNull pattern → Steps above here [pattern] above' there → Matches patterns above' there parts t →
      Matches (pattern :: patterns) above here (pattern :: parts) t

variable {pattern : String} {patterns parts : List String} {above : List FileTree} {here t : FileTree}

theorem Matches.exists_directory (h : Matches patterns above here parts t) (hne : patterns ≠ []) :
    ∃ entries, here = .directory entries := by
  cases h with
  | nil => exact absurd rfl hne
  | exact _ _ _ hsteps =>
    cases hsteps with
    | down => exact ⟨_, rfl⟩
    | up => exact ⟨_, rfl⟩
    | top => exact ⟨_, rfl⟩
  | _ => exact ⟨_, rfl⟩

theorem matches_anywhere_iff (hnamed : here.WellNamed) :
    Matches ("**" :: patterns) above here parts t ↔ ∃ first more above' entries,
      parts = first ++ more ∧ ".." ∉ first ∧ Steps above here first above' (.directory entries) ∧
        Matches patterns above' (.directory entries) more t := by
  constructor
  · intro h
    generalize hall : "**" :: patterns = all at h
    induction h with
    | nil => exact nomatch hall
    | slash => exact absurd (List.cons.inj hall).1 (by decide)
    | @skip _ above entries parts t h =>
      obtain rfl := (List.cons.inj hall).2
      exact ⟨[], parts, above, entries, rfl, List.not_mem_nil, .here, h⟩
    | @deeper _ above entries name there parts t hmem _ ih =>
      obtain ⟨first, more, above', below, rfl, hup, hsteps, hmatches⟩ := ih (hnamed.of_mem _ hmem) hall
      have hname := (hnamed.isName_of_mem _ hmem).2.2.1
      refine ⟨name :: first, more, above', below, rfl, ?_, .down hname hmem hsteps, hmatches⟩
      rw [List.mem_cons, not_or]
      exact ⟨hname.symm, hup⟩
    | wild hne => exact absurd (List.cons.inj hall).1.symm hne
    | exact _ hwild =>
      obtain rfl := (List.cons.inj hall).1
      exact absurd (by decide) hwild
  · rintro ⟨first, more, above', entries, rfl, hup, hsteps, hmatches⟩
    induction first generalizing above here with
    | nil =>
      cases hsteps
      exact .skip hmatches
    | cons name first ih =>
      rw [List.mem_cons, not_or] at hup
      cases hsteps with
      | down _ hmem hsteps => exact .deeper hmem (ih (hnamed.of_mem _ hmem) hup.2 hsteps)
      | up => exact absurd rfl hup.1
      | top => exact absurd rfl hup.1

theorem matches_empty_iff {entries : List (String × FileTree)} :
    Matches ("" :: patterns) above (.directory entries) parts t ↔ parts = [] ∧ t = .directory entries := by
  constructor
  · intro h
    generalize hall : "" :: patterns = all at h
    cases h with
    | nil => exact nomatch hall
    | slash => exact ⟨rfl, rfl⟩
    | skip => exact absurd (List.cons.inj hall).1 (by decide)
    | deeper => exact absurd (List.cons.inj hall).1 (by decide)
    | wild _ hwild =>
      obtain rfl := (List.cons.inj hall).1
      exact absurd hwild (by decide)
    | exact hne => exact absurd (List.cons.inj hall).1.symm hne
  · rintro ⟨rfl, rfl⟩
    exact .slash

theorem matches_wild_iff {entries : List (String × FileTree)} (hstars : pattern ≠ "**")
    (hwild : isWild pattern) :
    Matches (pattern :: patterns) above (.directory entries) parts t ↔ ∃ name there more,
      parts = name :: more ∧ (name, there) ∈ entries ∧ globMatches pattern name ∧
        Matches patterns (.directory entries :: above) there more t := by
  constructor
  · intro h
    cases h with
    | slash => exact absurd hwild (by decide)
    | skip => exact absurd rfl hstars
    | deeper => exact absurd rfl hstars
    | wild _ _ hname hmem h => exact ⟨_, _, _, rfl, hmem, hname, h⟩
    | exact _ hexact => exact absurd hwild hexact
  · rintro ⟨name, there, more, rfl, hmem, hname, h⟩
    exact .wild hstars hwild hname hmem h

theorem matches_exact_iff (hne : pattern ≠ "") (hexact : ¬ isWild pattern) :
    Matches (pattern :: patterns) above here parts t ↔ NoNull pattern ∧ ∃ above' there more,
      parts = pattern :: more ∧ Steps above here [pattern] above' there ∧
        Matches patterns above' there more t := by
  constructor
  · intro h
    cases h with
    | slash => exact absurd rfl hne
    | skip => exact absurd (by decide) hexact
    | deeper => exact absurd (by decide) hexact
    | wild _ hwild => exact absurd hwild hexact
    | exact _ _ hnull hsteps h => exact ⟨hnull, _, _, _, rfl, hsteps, h⟩
  · rintro ⟨hnull, above', there, more, rfl, hsteps, h⟩
    exact .exact hne hexact hnull hsteps h

theorem matches_below_iff (hnamed : here.WellNamed) (hstars : pattern ≠ "**") (hwild : isWild pattern) :
    Matches ["**", pattern] above here parts t ↔
      ∃ first last, parts = first ++ [last] ∧ globMatches pattern last ∧ here.Leads parts t := by
  rw [matches_anywhere_iff hnamed]
  simp only [matches_wild_iff hstars hwild]
  constructor
  · rintro ⟨first, -, above', entries, rfl, hup, hsteps, last, there, more, rfl, hmem, hlast, hmatches⟩
    cases hmatches
    exact ⟨first, last, rfl, hlast, leads_append_iff.2 ⟨_, hsteps.leads hup, .inside hmem .here⟩⟩
  · rintro ⟨first, last, rfl, hlast, hleads⟩
    obtain ⟨there, hfirst, hleads⟩ := leads_append_iff.1 hleads
    have hup := hnamed.up_not_mem_of_leads hfirst
    obtain ⟨above', hsteps⟩ := hfirst.exists_steps hup above
    cases hleads with
    | inside hmem hleads =>
      obtain rfl := leads_nil_iff.1 hleads
      exact ⟨first, [last], above', _, rfl, hup, hsteps, last, _, [], rfl, hmem, hlast, .nil⟩

theorem Matches.exists_steps (h : Matches patterns above here parts t)
    (hnamed : ∀ d ∈ here :: above, d.WellNamed) :
    (∃ above', Steps above here parts above' t) ∧ ∀ part ∈ parts, IsPart part := by
  have hmore {name : String} {parts : List String} (hname : IsPart name) (h : ∀ part ∈ parts, IsPart part) :
      ∀ part ∈ name :: parts, IsPart part := List.forall_mem_cons.2 ⟨hname, h⟩
  have hbelow {entries : List (String × FileTree)} {name : String} {there : FileTree}
      {above : List FileTree} (hmem : (name, there) ∈ entries)
      (h : ∀ d ∈ .directory entries :: above, d.WellNamed) :
      IsName name ∧ ∀ d ∈ there :: .directory entries :: above, d.WellNamed :=
    have hhere := h _ List.mem_cons_self
    ⟨hhere.isName_of_mem _ hmem, List.forall_mem_cons.2 ⟨hhere.of_mem _ hmem, h⟩⟩
  induction h with
  | nil | slash => exact ⟨⟨_, .here⟩, List.forall_mem_nil _⟩
  | skip _ ih => exact ih hnamed
  | deeper hmem _ ih =>
    obtain ⟨hname, hnamed⟩ := hbelow hmem hnamed
    obtain ⟨⟨above', hsteps⟩, hparts⟩ := ih hnamed
    exact ⟨⟨above', .down hname.2.2.1 hmem hsteps⟩, hmore (.inr hname) hparts⟩
  | wild _ _ _ hmem _ ih =>
    obtain ⟨hname, hnamed⟩ := hbelow hmem hnamed
    obtain ⟨⟨above', hsteps⟩, hparts⟩ := ih hnamed
    exact ⟨⟨above', .down hname.2.2.1 hmem hsteps⟩, hmore (.inr hname) hparts⟩
  | @exact pattern _ above above' here there parts t _ _ _ hfirst _ ih =>
    have hnext := hfirst.forall_mem (fun _ => WellNamed.of_mem) hnamed
    obtain ⟨⟨above₁, hsteps⟩, hparts⟩ := ih hnext
    have hall : Steps above here ([pattern] ++ parts) above₁ t :=
      steps_append_iff.2 ⟨_, _, hfirst, hsteps⟩
    refine ⟨⟨above₁, hall⟩, hmore ?_ hparts⟩
    cases hfirst with
    | down _ hmem => exact .inr (hbelow hmem hnamed).1
    | up => exact .inl rfl
    | top => exact .inl rfl

end FileTree

namespace Workspace

variable {w : Workspace} {p q : Path} {above : List FileTree} {here : FileTree}
  {entries : List (String × FileTree)} {patterns : List String}

theorem find_of_scan (h : w.scan p = .ok entries) : w.find p = .ok (.directory entries) := by
  rw [scan] at h
  split at h
  next hfind => exact Except.ok.inj h ▸ hfind
  · exact nomatch h
  · exact nomatch h

theorem exists_scan_iff (htree : w.tree.Distinct) (hat : w.At p above (.directory entries)) :
    (∃ found, w.scan p = .ok found) ↔ w.find p ≠ .error .tooLong := by
  constructor
  · rintro ⟨found, hscan⟩
    simp [find_of_scan hscan]
  · intro hlong
    exact ⟨entries, by rw [scan, hat.find_eq htree hlong]⟩

def Hits (patterns : List String) (p : Path) (above : List FileTree) (here : FileTree) (q : Path) : Prop :=
  ∃ parts there, FileTree.Matches patterns above here parts there ∧ q = p.below parts

theorem hits_anywhere_iff (hnamed : here.WellNamed) :
    Hits ("**" :: patterns) p above here q ↔ ∃ first above' entries, ".." ∉ first ∧
      FileTree.Steps above here first above' (.directory entries) ∧
        Hits patterns (p.below first) above' (.directory entries) q := by
  simp only [Hits, FileTree.matches_anywhere_iff hnamed, Path.below_below]
  constructor
  · rintro ⟨parts, there, ⟨first, more, above', entries, rfl, hup, hsteps, h⟩, rfl⟩
    exact ⟨first, above', entries, hup, hsteps, more, there, h, rfl⟩
  · rintro ⟨first, above', entries, hup, hsteps, more, there, h, rfl⟩
    exact ⟨_, there, ⟨first, more, above', entries, rfl, hup, hsteps, h⟩, rfl⟩

theorem hits_wild_iff {pattern : String} (hstars : pattern ≠ "**") (hwild : isWild pattern) :
    Hits (pattern :: patterns) p above (.directory entries) q ↔ ∃ name there, (name, there) ∈ entries ∧
      globMatches pattern name ∧ Hits patterns (p.below [name]) (.directory entries :: above) there q := by
  simp only [Hits, FileTree.matches_wild_iff hstars hwild, Path.below_below, List.singleton_append]
  constructor
  · rintro ⟨parts, t, ⟨name, there, more, rfl, hmem, hname, h⟩, rfl⟩
    exact ⟨name, there, hmem, hname, more, t, h, rfl⟩
  · rintro ⟨name, there, hmem, hname, more, t, h, rfl⟩
    exact ⟨_, t, ⟨name, there, more, rfl, hmem, hname, h⟩, rfl⟩

theorem hits_exact_iff {pattern : String} (hne : pattern ≠ "") (hexact : ¬ isWild pattern) :
    Hits (pattern :: patterns) p above here q ↔ NoNull pattern ∧ ∃ above' there,
      FileTree.Steps above here [pattern] above' there ∧
        Hits patterns (p.below [pattern]) above' there q := by
  simp only [Hits, FileTree.matches_exact_iff hne hexact, Path.below_below, List.singleton_append]
  constructor
  · rintro ⟨parts, t, ⟨hnull, above', there, more, rfl, hsteps, h⟩, rfl⟩
    exact ⟨hnull, above', there, hsteps, more, t, h, rfl⟩
  · rintro ⟨hnull, above', there, hsteps, more, t, h, rfl⟩
    exact ⟨_, t, ⟨hnull, above', there, more, rfl, hsteps, h⟩, rfl⟩

theorem Hits.isEmpty_or_isDirectory (h : Hits patterns p above here q) :
    patterns.isEmpty || here.isDirectory := by
  obtain ⟨parts, there, h, -⟩ := h
  cases patterns with
  | nil => rfl
  | cons pattern patterns =>
    obtain ⟨entries, rfl⟩ := h.exists_directory (List.cons_ne_nil _ _)
    rfl

theorem exists_directory_of_isEmpty_or (h : patterns.isEmpty || here.isDirectory) (hne : patterns ≠ []) :
    ∃ entries, here = .directory entries := by
  cases here with
  | directory entries => exact ⟨entries, rfl⟩
  | file => simp [hne, FileTree.isDirectory] at h
  | special => simp [hne, FileTree.isDirectory] at h

structure Gathers (w : Workspace) (patterns : List String) (places found : List Path) : Prop where
  ends : ∀ p ∈ places, ∃ paths, w.select patterns p = .ok paths
  mem_iff : ∀ q, q ∈ found ↔ ∃ p ∈ places, ∃ paths, w.select patterns p = .ok paths ∧ q ∈ paths

theorem gathers_of_mapM {α : Type} {xs : List α} {f : α → Except SearchError (List Path)} (place : α → Path)
    {lists : List (List Path)} (h : xs.mapM f = .ok lists)
    (hf : ∀ x paths, f x = .ok paths → w.select patterns (place x) = .ok paths) :
    w.Gathers patterns (xs.map place) lists.flatten where
  ends := by
    rw [List.forall_mem_map]
    intro x hx
    obtain ⟨paths, hpaths⟩ := exists_mapM_iff.1 ⟨lists, h⟩ x hx
    exact ⟨paths, hf x paths hpaths⟩
  mem_iff q := by
    simp only [mem_flatten_of_mapM h, List.mem_map, exists_exists_and_eq_and]
    refine exists_congr fun x => and_congr_right fun hx => ?_
    obtain ⟨paths, hpaths⟩ := exists_mapM_iff.1 ⟨lists, h⟩ x hx
    simp [hpaths, hf x paths hpaths]

theorem gathers_nil (w : Workspace) (patterns : List String) : w.Gathers patterns [] [] where
  ends := List.forall_mem_nil _
  mem_iff := by simp

theorem gathers_singleton {found : List Path} (h : w.select patterns p = .ok found) :
    w.Gathers patterns [p] found where
  ends := List.forall_mem_singleton.2 ⟨found, h⟩
  mem_iff := by simp [h]

section

variable {pattern : String} {found : List Path}

theorem ne_empty_of_isWild (h : isWild pattern) : pattern ≠ "" := by
  rintro rfl
  exact absurd h (by decide)

theorem ne_stars_of_not_isWild (h : ¬ isWild pattern) : pattern ≠ "**" := by
  rintro rfl
  exact h (by decide)

theorem gathers_of_anywhere (h : w.select ("**" :: patterns) p = .ok found) :
    ∃ here, w.find p = .ok here ∧ w.Gathers patterns (here.directories.map p.below) found := by
  rw [select, if_neg (by decide), if_pos rfl] at h
  split at h
  next here hfind =>
    obtain ⟨lists, hlists, h⟩ := exists_of_bind_eq_ok h
    obtain rfl := Except.ok.inj h
    refine ⟨here, hfind, gathers_of_mapM p.below hlists fun parts paths h => ?_⟩
    obtain ⟨found', hselect, h⟩ := exists_of_bind_eq_ok h
    obtain ⟨-, -, h⟩ := exists_of_bind_eq_ok h
    exact Except.ok.inj h ▸ hselect
  next =>
    obtain ⟨-, -, h⟩ := exists_of_bind_eq_ok h
    exact nomatch h

theorem gathers_of_wild (hstars : pattern ≠ "**") (hwild : isWild pattern)
    (h : w.select (pattern :: patterns) p = .ok found) :
    ∃ entries places, w.scan p = .ok entries ∧ w.Gathers patterns places found ∧
      ∀ q, q ∈ places ↔ ∃ name there, (name, there) ∈ entries ∧ globMatches pattern name ∧
        (patterns.isEmpty || there.isDirectory) ∧ q = p.below [name] := by
  rw [select, if_neg (ne_empty_of_isWild hwild), if_neg hstars, if_pos hwild] at h
  obtain ⟨entries, hscan, h⟩ := exists_of_bind_eq_ok h
  obtain ⟨lists, hlists, h⟩ := exists_of_bind_eq_ok h
  obtain rfl := Except.ok.inj h
  refine ⟨entries, _, hscan, gathers_of_mapM (fun e => p.below [e.1]) hlists fun _ _ h => h, fun q => ?_⟩
  simp only [List.mem_map, List.mem_filter, Bool.and_eq_true, Prod.exists, and_assoc, @eq_comm _ q]

theorem gathers_of_exact (hne : pattern ≠ "") (hexact : ¬ isWild pattern)
    (h : w.select (pattern :: patterns) p = .ok found) :
    (NoNull pattern → w.find? (p.below [pattern]) ≠ .error .tooLong) ∧
      ∃ places, w.Gathers patterns places found ∧ ∀ q, q ∈ places ↔ q = p.below [pattern] ∧
        NoNull pattern ∧ ∃ there, w.find? q = .ok (some there) ∧
          (patterns.isEmpty || there.isDirectory) := by
  rw [select, if_neg hne, if_neg (ne_stars_of_not_isWild hexact), if_neg hexact] at h
  split at h
  next hnull =>
    obtain rfl := Except.ok.inj h
    exact ⟨fun h => absurd h hnull, [], gathers_nil w patterns, by simp [hnull]⟩
  next hnull =>
    rw [Decidable.not_not] at hnull
    dsimp only at h
    split at h
    · exact nomatch h
    next hfind =>
      obtain rfl := Except.ok.inj h
      refine ⟨fun _ => by simp [hfind], [], gathers_nil w patterns, fun q => ?_⟩
      refine iff_of_false List.not_mem_nil ?_
      rintro ⟨rfl, -, there, hthere, -⟩
      exact nomatch hfind.symm.trans hthere
    next there hfind =>
      refine ⟨fun _ => by simp [hfind], ?_⟩
      split at h
      next hdirectory =>
        refine ⟨_, gathers_singleton h, fun q => ?_⟩
        rw [List.mem_singleton]
        refine (and_iff_left_of_imp ?_).symm
        rintro rfl
        exact ⟨hnull, there, hfind, hdirectory⟩
      next hdirectory =>
        obtain rfl := Except.ok.inj h
        refine ⟨[], gathers_nil w patterns, fun q => iff_of_false List.not_mem_nil ?_⟩
        rintro ⟨rfl, -, there', hthere, hdirectory'⟩
        obtain rfl := Option.some.inj (Except.ok.inj (hfind.symm.trans hthere))
        exact hdirectory hdirectory'

end

def Exhaustive (w : Workspace) (patterns : List String) : Prop :=
  ∀ {p above here found}, w.At p above here → patterns.isEmpty || here.isDirectory →
    w.select patterns p = .ok found → ∀ q, q ∈ found ↔ Hits patterns p above here q

theorem Gathers.exists_of_hits {places found : List Path} (h : w.Gathers patterns places found)
    (hmore : w.Exhaustive patterns) (hplace : p ∈ places) (hat : w.At p above here)
    (hq : Hits patterns p above here q) :
    ∃ p ∈ places, ∃ paths, w.select patterns p = .ok paths ∧ q ∈ paths := by
  obtain ⟨paths, hselect⟩ := h.ends p hplace
  exact ⟨p, hplace, paths, hselect, (hmore hat hq.isEmpty_or_isDirectory hselect q).2 hq⟩

namespace Exhaustive

variable {found : List Path} {pattern : String}

theorem anywhere (htree : w.tree.Distinct) (hhere : (FileTree.directory entries).WellNamed)
    (hmore : w.Exhaustive patterns) (hat : w.At p above (.directory entries))
    (h : w.select ("**" :: patterns) p = .ok found) :
    q ∈ found ↔ Hits ("**" :: patterns) p above (.directory entries) q := by
  obtain ⟨here, hfind, hgathers⟩ := gathers_of_anywhere h
  obtain rfl := hat.eq_of_find htree hfind
  rw [hgathers.mem_iff, hits_anywhere_iff hhere]
  constructor
  · rintro ⟨q', hplace, paths, hselect, hq⟩
    obtain ⟨parts, hparts, rfl⟩ := List.mem_map.1 hplace
    obtain ⟨below, hleads⟩ := FileTree.mem_directories_iff.1 hparts
    have hup := hhere.up_not_mem_of_leads hleads
    obtain ⟨above₁, hsteps⟩ := hleads.exists_steps hup above
    exact ⟨parts, above₁, below, hup, hsteps,
      (hmore (hat.below hsteps) (Bool.or_true _) hselect q).1 hq⟩
  · rintro ⟨parts, above₁, below, hup, hsteps, hq⟩
    have hplace := FileTree.mem_directories_iff.2 ⟨below, hsteps.leads hup⟩
    exact hgathers.exists_of_hits hmore (List.mem_map_of_mem hplace) (hat.below hsteps) hq

theorem wild (htree : w.tree.Distinct) (hhere : (FileTree.directory entries).WellNamed)
    (hmore : w.Exhaustive patterns) (hstars : pattern ≠ "**") (hwild : isWild pattern)
    (hat : w.At p above (.directory entries)) (h : w.select (pattern :: patterns) p = .ok found) :
    q ∈ found ↔ Hits (pattern :: patterns) p above (.directory entries) q := by
  obtain ⟨entries', places, hscan, hgathers, hplaces⟩ := gathers_of_wild hstars hwild h
  obtain rfl := FileTree.directory.inj (hat.eq_of_find htree (find_of_scan hscan)).symm
  have hbelow {name : String} {there : FileTree} (hmem : (name, there) ∈ entries) :
      w.At (p.below [name]) (.directory entries :: above) there :=
    hat.below (.down (hhere.isName_of_mem _ hmem).2.2.1 hmem .here)
  rw [hgathers.mem_iff, hits_wild_iff hstars hwild]
  constructor
  · rintro ⟨q', hplace, paths, hselect, hq⟩
    obtain ⟨name, there, hmem, hname, hdirectory, rfl⟩ := (hplaces _).1 hplace
    exact ⟨name, there, hmem, hname, (hmore (hbelow hmem) hdirectory hselect q).1 hq⟩
  · rintro ⟨name, there, hmem, hname, hq⟩
    have hplace := (hplaces _).2 ⟨name, there, hmem, hname, hq.isEmpty_or_isDirectory, rfl⟩
    exact hgathers.exists_of_hits hmore hplace (hbelow hmem) hq

theorem exact (htree : w.tree.Distinct) (hmore : w.Exhaustive patterns) (hempty : pattern ≠ "")
    (hexact : ¬ isWild pattern) (hat : w.At p above here)
    (h : w.select (pattern :: patterns) p = .ok found) :
    q ∈ found ↔ Hits (pattern :: patterns) p above here q := by
  obtain ⟨hlong, places, hgathers, hplaces⟩ := gathers_of_exact hempty hexact h
  rw [hgathers.mem_iff, hits_exact_iff hempty hexact]
  constructor
  · rintro ⟨q', hplace, paths, hselect, hq⟩
    obtain ⟨rfl, hnull, there, hfind, hdirectory⟩ := (hplaces q').1 hplace
    obtain ⟨above', hat'⟩ := stands_of_find? (p := p.below [pattern]) hat.root_eq hfind
    exact ⟨hnull, above', there, hat.steps_of_below htree hat', (hmore hat' hdirectory hselect q).1 hq⟩
  · rintro ⟨hnull, above', there, hsteps, hq⟩
    have hat' := hat.below hsteps
    have hplace := (hplaces _).2
      ⟨rfl, hnull, there, hat'.find?_eq htree (hlong hnull), hq.isEmpty_or_isDirectory⟩
    exact hgathers.exists_of_hits hmore hplace hat' hq

end Exhaustive

theorem exhaustive (htree : w.tree.Distinct) (hnamed : w.tree.WellNamed) (patterns : List String) :
    w.Exhaustive patterns := by
  -- A pattern leads to the places from which those behind it are followed.
  induction patterns with
  | nil =>
    intro p above here found _ _ h q
    rw [select] at h
    obtain rfl := Except.ok.inj h
    rw [List.mem_singleton]
    constructor
    · rintro rfl
      exact ⟨[], here, .nil, (q.below_nil).symm⟩
    · rintro ⟨parts, there, hmatches, rfl⟩
      cases hmatches
      exact p.below_nil
  | cons pattern patterns ih =>
    intro p above here found hat hdirectory h q
    obtain ⟨entries, rfl⟩ := exists_directory_of_isEmpty_or hdirectory (List.cons_ne_nil _ _)
    have hhere := hat.wellNamed hnamed _ List.mem_cons_self
    by_cases hempty : pattern = ""
    · subst hempty
      rw [select, if_pos rfl] at h
      obtain rfl := Except.ok.inj h
      simp [Hits, FileTree.matches_empty_iff]
    by_cases hstars : pattern = "**"
    · subst hstars
      exact ih.anywhere htree hhere hat h
    by_cases hwild : isWild pattern
    · exact ih.wild htree hhere hstars hwild hat h
    · exact ih.exact htree hempty hwild hat h

theorem wellNamed_of_find (hnamed : w.tree.WellNamed) (hroot : p.root = "/") (h : w.find p = .ok here) :
    here.WellNamed := by
  obtain ⟨above, hat⟩ := exists_at_of_find hroot h
  exact hat.wellNamed hnamed _ List.mem_cons_self

theorem clean_of_mem_select (hnamed : w.tree.WellNamed)
    (hpatterns : ∀ pattern ∈ patterns, pattern ≠ "" → IsPart pattern) (hp : p.Clean) {found : List Path}
    (h : w.select patterns p = .ok found) (hq : q ∈ found) : q.Clean := by
  induction patterns generalizing p found with
  | nil =>
    rw [select] at h
    obtain rfl := Except.ok.inj h
    exact List.mem_singleton.1 hq ▸ hp
  | cons pattern patterns ih =>
    obtain ⟨hpattern, hpatterns⟩ := List.forall_mem_cons.1 hpatterns
    have hgathered {places : List Path} (hgathers : w.Gathers patterns places found)
        (hplaces : ∀ p ∈ places, p.Clean) : q.Clean := by
      obtain ⟨p, hplace, paths, hselect, hq⟩ := (hgathers.mem_iff q).1 hq
      exact ih hpatterns (hplaces p hplace) hselect hq
    by_cases hempty : pattern = ""
    · subst hempty
      rw [select, if_pos rfl] at h
      obtain rfl := Except.ok.inj h
      exact List.mem_singleton.1 hq ▸ hp
    by_cases hstars : pattern = "**"
    · subst hstars
      obtain ⟨here, hfind, hgathers⟩ := gathers_of_anywhere h
      refine hgathered hgathers (List.forall_mem_map.2 fun parts hparts => hp.below fun part hpart => ?_)
      obtain ⟨below, hleads⟩ := FileTree.mem_directories_iff.1 hparts
      exact .inr ((wellNamed_of_find hnamed hp.1 hfind).isName_of_leads hleads part hpart)
    by_cases hwild : isWild pattern
    · obtain ⟨entries, places, hscan, hgathers, hplaces⟩ := gathers_of_wild hstars hwild h
      refine hgathered hgathers fun q hq => ?_
      obtain ⟨name, there, hmem, -, -, rfl⟩ := (hplaces q).1 hq
      have hentries := wellNamed_of_find hnamed hp.1 (find_of_scan hscan)
      exact hp.below (List.forall_mem_singleton.2 (.inr (hentries.isName_of_mem _ hmem)))
    · obtain ⟨-, places, hgathers, hplaces⟩ := gathers_of_exact hempty hwild h
      refine hgathered hgathers fun q hq => ?_
      obtain ⟨rfl, -⟩ := (hplaces q).1 hq
      exact hp.below (List.forall_mem_singleton.2 (hpattern hempty))

theorem exists_select_wild_iff {pattern : String} (hstars : pattern ≠ "**") (hwild : isWild pattern) :
    (∃ found, w.select [pattern] p = .ok found) ↔ ∃ entries, w.scan p = .ok entries := by
  rw [select, if_neg (ne_empty_of_isWild hwild), if_neg hstars, if_pos hwild, exists_bind_iff]
  refine exists_congr fun entries => and_iff_left ?_
  have hnames (fitting : List (String × FileTree)) :
      ∃ lists, (fitting.mapM fun e => w.select [] (p.below [e.1])) = .ok lists :=
    exists_mapM_iff.2 fun e _ => ⟨_, select.eq_1 w (p.below [e.1])⟩
  obtain ⟨lists, hlists⟩ := hnames _
  exact exists_bind_iff.2 ⟨lists, hlists, lists.flatten, rfl⟩

theorem exists_select_iff {pattern : String} (htree : w.tree.Distinct)
    (hhere : (FileTree.directory entries).WellNamed) (hstars : pattern ≠ "**") (hwild : isWild pattern)
    (hat : w.At p above (.directory entries)) :
    (∃ found, w.select ["**", pattern] p = .ok found) ↔ ∀ parts below,
      (FileTree.directory entries).Leads parts (.directory below) →
        w.find (p.below parts) ≠ .error .tooLong := by
  have hselect {parts : List String} {below : List (String × FileTree)}
      (hleads : (FileTree.directory entries).Leads parts (.directory below)) :
      (∃ found, w.select [pattern] (p.below parts) = .ok found) ↔
        w.find (p.below parts) ≠ .error .tooLong := by
    obtain ⟨above', hsteps⟩ := hleads.exists_steps (hhere.up_not_mem_of_leads hleads) above
    rw [exists_select_wild_iff hstars hwild, exists_scan_iff htree (hat.below hsteps)]
  constructor
  · rintro ⟨found, h⟩ parts below hleads
    obtain ⟨here, hfind, hgathers⟩ := gathers_of_anywhere h
    obtain rfl := hat.eq_of_find htree hfind
    exact (hselect hleads).1
      (hgathers.ends _ (List.mem_map_of_mem (FileTree.mem_directories_iff.2 ⟨below, hleads⟩)))
  · intro hlong
    have hfind := hat.find_eq htree (p.below_nil ▸ hlong [] entries .here)
    rw [select, if_neg (by decide), if_pos rfl, hfind]
    refine exists_bind_iff.2 ?_
    -- A directory is scanned for the pattern, and once more for the directories in it.
    obtain ⟨lists, hlists⟩ := exists_mapM_iff.2 fun parts hparts => by
      obtain ⟨below, hleads⟩ := FileTree.mem_directories_iff.1 hparts
      obtain ⟨paths, hpaths⟩ := (hselect hleads).2 (hlong parts below hleads)
      obtain ⟨scanned, hscanned⟩ := (exists_select_wild_iff hstars hwild).1 ⟨paths, hpaths⟩
      exact exists_bind_iff.2 ⟨paths, hpaths, exists_bind_iff.2 ⟨scanned, hscanned, paths, rfl⟩⟩
    exact ⟨lists, hlists, lists.flatten, rfl⟩

end Workspace

end IndentedGrammar
