import Letterpress.Proofs.Compile.Dependencies
import Letterpress.Proofs.Compile.Recompile

/-!
# Sources that ask for nothing

Where there are no references, a pass changes nothing and a run comes across nothing else. So a source
whose tags ask for nothing asks for no file at all (`not_asks_of_isQuiet`).
-/

namespace Letterpress.Compile

open Letterpress.Markup

/-! ## Trees without references -/

section

variable {files : Files} {base : FilePath} {chain : List FilePath} {nodes : List Node}

/-- A pass over trees without references resolves nothing. -/
theorem passAll_of_free (r : Resolver) (h : hasReference nodes = false) :
    (passAll r nodes).outcome = .ok (nodes, false) := by
  induction nodes using forest_induction with
  | nil =>
    rw [passAll]
    rfl
  | leaf node rest hleaf ih =>
    rw [hasReference_leaf hleaf] at h
    refine (passAll_cons_eq_ok r).mpr ⟨[node], false, rest, false, ?_, ih h, rfl, rfl⟩
    rw [pass_leaf r hleaf]
    rfl
  | element tag children rest ihc ihr =>
    simp only [hasReference_element, isReference, Bool.or_eq_false_iff] at h
    obtain ⟨⟨⟨hs, hf⟩, hchildren⟩, hrest⟩ := h
    refine (passAll_cons_eq_ok r).mpr
      ⟨[.element tag children], false, rest, false, ?_, ihr hrest, rfl, rfl⟩
    rw [pass_around r hs (by simp [hf]), Tracked.outcome_bind_eq_ok]
    exact ⟨_, ihc hchildren, rfl⟩

theorem includedIn_of_free (h : hasReference nodes = false) :
    includedIn files base chain nodes = [] := by
  induction nodes using forest_induction with
  | nil => rw [includedIn]
  | leaf node rest hleaf ih =>
    rw [hasReference_leaf hleaf] at h
    rw [includedIn, ih h]
    cases node <;> first | rfl | exact (hleaf _ _ rfl).elim
  | element tag children rest ihc ihr =>
    simp only [hasReference_element, isReference, Bool.or_eq_false_iff] at h
    obtain ⟨⟨⟨hs, hf⟩, hchildren⟩, hrest⟩ := h
    rw [includedIn, included, ihr hrest]
    simp [hf, ihc hchildren]

/-- A run over trees without references comes across nothing else. -/
theorem Reaches.eq_of_free {call later : Call} (h : Reaches files call later)
    (hfree : hasReference call.nodes = false) : later = call := by
  induction h with
  | start => rfl
  | again h hpass ih =>
    rw [ih, passAll_of_free _ hfree] at hpass
    cases hpass
  | @inside later fragment children filled h hmem hfilled ih =>
    subst ih
    rw [includedIn_of_free hfree] at hmem
    cases hmem

/-- Trees without references ask for no files. -/
theorem Call.not_asks_of_free {call : Call} (hfree : hasReference call.nodes = false)
    (d : Dependency) : ¬ call.Asks files d := by
  rintro ⟨later, hreaches, tag, htag, hasked⟩
  rw [hreaches.eq_of_free hfree] at htag
  have hnot : isReference tag = false := by simpa using List.any_eq_false.mp hfree tag htag
  rw [isReference, Bool.or_eq_false_iff] at hnot
  rw [asked?, roleOf?, hnot.1, hnot.2] at hasked
  split at hasked <;> cases hasked

end

/-! ## Quiet sources -/

section

variable {files : Files} {base : FilePath} {chain : List FilePath}

/-- A source whose tags ask for nothing asks for no file. -/
theorem not_asks_of_isQuiet {markup : String} {doc : Document} (hparse : parse markup = .ok doc)
    (hquiet : IsQuiet doc.nodes) (d : Dependency) : ¬ Asks files base chain markup d := by
  -- resolving leaves the source as it is, so that no template is named by then either
  have hunnamed {path : FilePath} {resolved : Document}
      (hdoc : IsResolvedSource files base chain markup resolved) :
      templateOf? base resolved ≠ some path := by
    obtain ⟨source, nodes, hsource, hnodes, rfl⟩ := hdoc
    obtain rfl : doc = source := Except.ok.inj (hparse.symm.trans hsource)
    rw [outcome_resolve_of_isQuiet hquiet] at hnodes
    obtain rfl := Except.ok.inj hnodes
    rw [templateOf?_of_isQuiet hquiet]
    exact Option.some_ne_none path ∘ Eq.symm
  rintro (⟨⟨resolved, hdoc, hpath⟩, -⟩ | ⟨call, hcall, hasks⟩)
  · exact hunnamed hdoc hpath
  · cases hcall with
    | source hsource =>
      obtain rfl := Except.ok.inj (hparse.symm.trans hsource)
      exact Call.not_asks_of_free (hasReference_of_isQuiet hquiet) d hasks
    | template hdoc hpath => exact hunnamed hdoc hpath

end

end Letterpress.Compile
