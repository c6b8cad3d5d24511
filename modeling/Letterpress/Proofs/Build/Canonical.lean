import Letterpress.Build.Manifest
import Letterpress.Proofs.Compile.Dependencies
import Letterpress.Proofs.Files.Spelled

/-!
# Dependencies are listed in one way

However often and in whatever order a compile meets its files, its dependencies are listed once
each, by path and then by role (`Compilation.IsListed`). A list in this order is told by its members
(`Dependency.eq_of_pairwise_isBefore`), so that the entry of a result is the same for all orders
(`ManifestEntry.dependencies_canonical`).
-/

namespace Letterpress

/-- Spelled paths are told apart by their texts. -/
theorem FilePath.IsSpelled.text_inj {p q : FilePath} (hp : p.IsSpelled) (hq : q.IsSpelled)
    (h : p.text = q.text) : p = q := by
  rw [← FilePath.ofString_text hp, h, FilePath.ofString_text hq]

namespace Compile

theorem Role.word_inj {a b : Role} (h : a.word = b.word) : a = b := by
  have hword := Role.ofWord?_word a
  rw [h, Role.ofWord?_word] at hword
  exact (Option.some.inj hword).symm

/-! ## The order -/

/-- One dependency is listed before another: the text of its path comes first, or the word for its
role if they have one path. -/
def Dependency.IsBefore (a b : Dependency) : Prop :=
  a.path.text < b.path.text ∨ a.path.text = b.path.text ∧ a.role.word < b.role.word

namespace Dependency

variable {a b c : Dependency}

theorem IsBefore.asymm (h : a.IsBefore b) : ¬ b.IsBefore a := by
  intro h'
  rcases h with h | ⟨heq, h⟩ <;> rcases h' with h' | ⟨heq', h'⟩
  · exact String.lt_asymm h h'
  · exact String.lt_irrefl _ (heq' ▸ h)
  · exact String.lt_irrefl _ (heq ▸ h')
  · exact String.lt_asymm h h'

/-- A list in this order is told by its members. -/
theorem eq_of_pairwise_isBefore {l m : List Dependency} (hl : l.Pairwise IsBefore)
    (hm : m.Pairwise IsBefore) (h : ∀ d, d ∈ l ↔ d ∈ m) : l = m := by
  have hirrefl : ∀ d : Dependency, ¬ d.IsBefore d := fun d hd => hd.asymm hd
  have hne {x y : Dependency} (hxy : x.IsBefore y) : x ≠ y := fun heq => hirrefl y (heq ▸ hxy)
  have hperm : l.Perm m := (List.perm_ext_iff_of_nodup (hl.imp hne) (hm.imp hne)).mpr h
  exact hperm.eq_of_pairwise (fun x y _ _ hxy hyx => absurd hyx hxy.asymm) hl hm

end Dependency

namespace Compilation

variable {a b c : Dependency}

theorem precedes_iff : precedes a b = true ↔
    a.path.text < b.path.text ∨ a.path.text = b.path.text ∧ a.role.word ≤ b.role.word := by
  rw [precedes]
  split
  · rename_i h
    simp [h]
  · rename_i h
    simp [h]

theorem precedes_total (a b : Dependency) : (precedes a b || precedes b a) = true := by
  rw [Bool.or_eq_true, precedes_iff, precedes_iff]
  by_cases hab : a.path.text < b.path.text
  · exact .inl (.inl hab)
  · by_cases hba : b.path.text < a.path.text
    · exact .inr (.inl hba)
    · have htext := String.le_antisymm (String.not_lt.mp hba) (String.not_lt.mp hab)
      exact (String.le_total a.role.word b.role.word).imp (fun hw => .inr ⟨htext, hw⟩)
        fun hw => .inr ⟨htext.symm, hw⟩

theorem precedes_trans (hab : precedes a b = true) (hbc : precedes b c = true) :
    precedes a c = true := by
  rw [precedes_iff] at hab hbc ⊢
  rcases hab with hab | ⟨hab, hw⟩ <;> rcases hbc with hbc | ⟨hbc, hw'⟩
  · exact .inl (String.lt_trans hab hbc)
  · exact .inl (hbc ▸ hab)
  · exact .inl (hab ▸ hbc)
  · exact .inr ⟨hab.trans hbc, String.le_trans hw hw'⟩

/-- Of two dependencies on spelled paths, one that precedes another one comes before it. -/
theorem isBefore_of_precedes (ha : a.path.IsSpelled) (hb : b.path.IsSpelled)
    (h : precedes a b = true) (hne : a ≠ b) : a.IsBefore b := by
  rcases precedes_iff.mp h with h | ⟨htext, hw⟩
  · exact .inl h
  · refine .inr ⟨htext, String.not_le.mp fun hback => hne ?_⟩
    have hword := String.le_antisymm hw hback
    obtain ⟨path, role⟩ := a
    obtain ⟨path', role'⟩ := b
    rw [Dependency.mk.injEq]
    exact ⟨ha.text_inj hb htext, Role.word_inj hword⟩

/-! ## Adding dependencies -/

/-- The dependencies are in order, and each is listed once. -/
structure IsListed (c : Compilation) : Prop where
  sorted : c.dependencies.Pairwise fun a b => precedes a b = true
  nodup : c.dependencies.Nodup

theorem IsListed.addDependency {c : Compilation} (h : c.IsListed) (d : Dependency) :
    (c.addDependency d).IsListed := by
  rw [Compilation.addDependency]
  split
  · exact h
  · rename_i hd
    have hd : d ∉ c.dependencies := by simpa using hd
    have htrans : ∀ a b c : Dependency, precedes a b = true → precedes b c = true →
        precedes a c = true := fun _ _ _ => precedes_trans
    refine ⟨List.pairwise_mergeSort htrans precedes_total _, ?_⟩
    exact (List.mergeSort_perm _ _).nodup_iff.mpr (List.nodup_cons.mpr ⟨hd, h.nodup⟩)

theorem IsListed.foldl_addDependency {c : Compilation} (h : c.IsListed) (calls : List Dependency) :
    (calls.foldl Compilation.addDependency c).IsListed := by
  induction calls generalizing c with
  | nil => exact h
  | cons d rest ih => exact ih (h.addDependency d)

theorem isListed_of_no_dependencies {c : Compilation} (h : c.dependencies = []) : c.IsListed := by
  constructor <;> rw [h] <;> exact .nil

theorem IsListed.pairwise_isBefore {c : Compilation} (h : c.IsListed)
    (hspelled : ∀ d ∈ c.dependencies, d.path.IsSpelled) :
    c.dependencies.Pairwise Dependency.IsBefore := by
  refine (h.sorted.and h.nodup).imp_of_mem ?_
  rintro a b ha hb ⟨hab, hne⟩
  exact isBefore_of_precedes (hspelled a ha) (hspelled b hb) hab hne

theorem mem_dependenciesOf {c : Compilation} {role : Role} {path : FilePath} :
    path ∈ c.dependenciesOf role ↔ ⟨path, role⟩ ∈ c.dependencies := by
  simp only [dependenciesOf, List.mem_map, List.mem_filter, decide_eq_true_eq]
  constructor
  · rintro ⟨⟨path, role⟩, ⟨hmem, rfl⟩, rfl⟩
    exact hmem
  · intro hmem
    exact ⟨_, ⟨hmem, rfl⟩, rfl⟩

end Compilation

end Compile

namespace Build

open Compile

/-- The entry of a result does not depend on the order in which its files were met, nor on how often:
if the same dependencies were added to two compilations that had none, their entries list the same
ones in the same order. Each of them is listed once, by path and then by role, and those of one role
are the files that played it. -/
theorem ManifestEntry.dependencies_canonical (output : String) (source : FilePath)
    (c c' : Compilation) (hc : c.dependencies = []) (hc' : c'.dependencies = [])
    (calls others : List Dependency) (hspelled : ∀ d ∈ calls, d.path.IsSpelled)
    (hsame : ∀ d, d ∈ calls ↔ d ∈ others) :
    let compiled := calls.foldl Compilation.addDependency c
    let entry := ManifestEntry.ofCompilation output source compiled
    entry.dependencies = (ManifestEntry.ofCompilation output source
      (others.foldl Compilation.addDependency c')).dependencies ∧
    (∀ d, entry.dependencies.count d = if d ∈ calls then 1 else 0) ∧
    entry.dependencies.Pairwise Dependency.IsBefore ∧
    ∀ role path, (⟨path, role⟩ ∈ entry.dependencies ↔ path ∈ compiled.dependenciesOf role) ∧
      (path ∈ compiled.dependenciesOf role ↔ ⟨path, role⟩ ∈ calls) := by
  have hmem (start : Compilation) (hstart : start.dependencies = []) (l : List Dependency)
      (d : Dependency) : d ∈ (l.foldl Compilation.addDependency start).dependencies ↔ d ∈ l := by
    rw [mem_foldl_addDependency, hstart]
    simp
  have hlisted (start : Compilation) (hstart : start.dependencies = []) (l : List Dependency) :
      (l.foldl Compilation.addDependency start).IsListed :=
    (Compilation.isListed_of_no_dependencies hstart).foldl_addDependency l
  have hordered (start : Compilation) (hstart : start.dependencies = []) (l : List Dependency)
      (hl : ∀ d ∈ l, d.path.IsSpelled) :
      (l.foldl Compilation.addDependency start).dependencies.Pairwise Dependency.IsBefore :=
    (hlisted start hstart l).pairwise_isBefore fun d hd => hl d ((hmem start hstart l d).mp hd)
  have hsorted := hordered c hc calls hspelled
  refine ⟨?_, ?_, hsorted, ?_⟩
  · refine Dependency.eq_of_pairwise_isBefore hsorted ?_ fun d => ?_
    · exact hordered c' hc' others fun d hd => hspelled d ((hsame d).mpr hd)
    · exact (hmem c hc calls d).trans ((hsame d).trans (hmem c' hc' others d).symm)
  · intro d
    rw [ManifestEntry.ofCompilation, (hlisted c hc calls).nodup.count]
    simp only [hmem c hc calls d]
  · intro role path
    have hdependencies : ⟨path, role⟩ ∈ (calls.foldl Compilation.addDependency c).dependencies ↔
        path ∈ (calls.foldl Compilation.addDependency c).dependenciesOf role :=
      Compilation.mem_dependenciesOf.symm
    exact ⟨hdependencies, hdependencies.symm.trans (hmem c hc calls _)⟩

/-- Two files in two orders, one of them met twice and in two roles. -/
theorem ManifestEntry.dependencies_canonical_met_twice :
    (∀ d ∈ [⟨.ofString "/b", .style⟩, ⟨.ofString "/a", .template⟩, ⟨.ofString "/b", .fragment⟩,
      (⟨.ofString "/b", .style⟩ : Dependency)], d.path.IsSpelled) ∧
    (ManifestEntry.ofCompilation "o" (.ofString "/s")
      ([⟨.ofString "/b", .style⟩, ⟨.ofString "/a", .template⟩, ⟨.ofString "/b", .fragment⟩,
        ⟨.ofString "/b", .style⟩].foldl Compilation.addDependency {})).dependencies =
    (ManifestEntry.ofCompilation "o" (.ofString "/s")
      ([⟨.ofString "/a", .template⟩, ⟨.ofString "/b", .fragment⟩,
        ⟨.ofString "/b", .style⟩].foldl Compilation.addDependency {})).dependencies := by
  have hspelled : ∀ d ∈ [⟨.ofString "/b", .style⟩, ⟨.ofString "/a", .template⟩,
      ⟨.ofString "/b", .fragment⟩, (⟨.ofString "/b", .style⟩ : Dependency)], d.path.IsSpelled := by
    intro d hd
    simp only [List.mem_cons, List.not_mem_nil, or_false] at hd
    rcases hd with rfl | rfl | rfl | rfl <;> exact FilePath.isSpelled_ofString _
  refine ⟨hspelled, (ManifestEntry.dependencies_canonical _ _ {} {} rfl rfl _ _ hspelled ?_).1⟩
  intro d
  simp only [List.mem_cons, List.not_mem_nil, or_false]
  tauto

end Build

end Letterpress
