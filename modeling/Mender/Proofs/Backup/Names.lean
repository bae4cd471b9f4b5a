import Mender.Proofs.Path.Order
import Mender.Proofs.Sweep.Lineup

/-!
# Names of backups

The name of a backup is made by putting the suffix behind the spelling of a path, and the source is found
by taking it off the last component. Both leave the directory alone: a path that ends in a name is joined
from its directory and the name (`EndsInName.join`), and the parts of the directory that say nothing are
all that gets lost on the way (`components_trim`). So the two undo each other up to the spelling
(`backup_names`).
-/

namespace Mender

namespace Path

variable {p d : Path} {n m : Text} {idles : List Text}

/-- The spelling of a path ends in the name of an entry: what stands behind its last separator is not empty,
nor one or two dots. -/
def EndsInName (p : Path) : Prop := ∃ n ∈ (split p.text).getLast?, IsName n

instance : DecidablePred EndsInName := fun p => Option.decidableExistsMem (split p.text).getLast?

/-- A path that ends in a name is joined from a directory and the name. -/
lemma EndsInName.join (ends : p.EndsInName) : ∃ d n, p = join d n ∧ IsName n := by
  obtain ⟨n, last, nm⟩ := ends
  obtain ⟨d, m, rfl, sep⟩ := exists_join p
  rw [split_join sep, List.getLast?_concat] at last
  obtain rfl := Option.some.inj last
  exact ⟨d, m, rfl, nm⟩

/-- Parts that say nothing at the end of a directory make no difference to the components. -/
lemma components_trim (parts : p.dirParts = d.dirParts ++ idles) (idle : ∀ i ∈ idles, isIdle i)
    (nil : d.dirParts = [] → p.dirParts = []) : p.components = d.components := by
  cases dirs : d.dirParts with
  | nil => rw [components_of_dirParts_nil dirs, components_of_dirParts_nil (nil dirs)]
  | cons a ps =>
    rw [dirs, List.cons_append] at parts
    have none : idles.filter (!isIdle ·) = [] := by
      rw [List.filter_eq_nil_iff]
      intro i mem
      rw [idle i mem]
      decide
    rw [components_of_dirParts dirs, components_of_dirParts parts, List.filter_append, none,
      List.append_nil]

/-- A joined path has a parent. -/
lemma isSome_parent?_join (p : Path) (nm : IsName n) : (p.join n).parent?.isSome = true := by
  obtain ⟨d, _, parent, _⟩ := parent?_join (p := p) nm
  rw [parent]
  rfl

end Path

namespace Backup

variable {s : Text} {d p q : Path} {n m : Text}

/-- The path of a backup has the components of the source, with the suffix behind the last one. -/
lemma components_pathOf (d : Path) (nm : Path.IsName n) (ne : s ≠ []) (sep : '/' ∉ s) :
    (pathOf s (d.join n)).components = d.components ++ [.normal (n ++ s)] := by
  rw [pathOf, Path.append_join, Path.components_join d (nm.append ne sep)]

/-- Taking the suffix off a name that ends in it leaves an entry of the same directory, whose backup has the
components that the name with the suffix has. -/
lemma sourceOf?_of_append (d : Path) (nms : Path.IsName (n ++ s)) (ne : n ≠ []) : ∃ d' : Path,
    sourceOf? s (d.join (n ++ s)) = some (d'.join n) ∧ d'.components = d.components := by
  obtain ⟨d', idles, source, parts, idle, nil⟩ := Path.sourceOf?_append (p := d) nms ne
  exact ⟨d', source, (Path.components_trim parts idle nil).symm⟩

/-- The source of the backup of a path has the components of the path. -/
lemma components_sourceOf?_pathOf (ends : p.EndsInName) (ne : s ≠ []) (sep : '/' ∉ s) :
    ∃ o, sourceOf? s (pathOf s p) = some o ∧ o.components = p.components := by
  obtain ⟨d, n, rfl, nm⟩ := ends.join
  obtain ⟨d', source, same⟩ := sourceOf?_of_append d (nm.append ne sep) nm.ne_nil
  refine ⟨d'.join n, ?_, ?_⟩
  · rw [pathOf, Path.append_join]
    exact source
  · rw [Path.components_join d' nm, Path.components_join d nm, same]

/-- The backup of the source of a backup has the components of the backup, also if the source has a name
that is no name of an entry. -/
lemma components_pathOf_sourceOf? (ends : p.EndsInName) (source : sourceOf? s p = some q) :
    (pathOf s q).components = p.components := by
  obtain ⟨d, n, rfl, nm⟩ := ends.join
  obtain ⟨m, ne, rfl⟩ := Path.append_of_sourceOf? source (Path.fileName?_join nm)
  obtain ⟨d', source', same⟩ := sourceOf?_of_append d nm ne
  obtain rfl := Option.some.inj (source'.symm.trans source)
  rw [pathOf, Path.append_join, Path.components_join d' nm, Path.components_join d nm, same]

/-- Only paths with the same components have backups with the same components. -/
lemma components_of_pathOf (ends : p.EndsInName) (ends' : q.EndsInName) (ne : s ≠ []) (sep : '/' ∉ s)
    (same : (pathOf s p).components = (pathOf s q).components) : p.components = q.components := by
  obtain ⟨d, n, rfl, nm⟩ := ends.join
  obtain ⟨d', n', rfl, nm'⟩ := ends'.join
  rw [components_pathOf d nm ne sep, components_pathOf d' nm' ne sep] at same
  obtain ⟨dirs, names⟩ := List.append_inj' same rfl
  have name : n = n' := List.append_cancel_right (Path.Component.normal.inj (List.singleton_inj.1 names))
  rw [Path.components_join d nm, Path.components_join d' nm', dirs, name]

/-- A backup is never its own source. -/
lemma components_pathOf_ne (ends : p.EndsInName) (ne : s ≠ []) (sep : '/' ∉ s) :
    (pathOf s p).components ≠ p.components := by
  obtain ⟨d, n, rfl, nm⟩ := ends.join
  rw [components_pathOf d nm ne sep, Path.components_join d nm]
  intro same
  have names := List.singleton_inj.1 (List.append_cancel_left same)
  exact ne (List.append_right_eq_self.1 (Path.Component.normal.inj names))

/-- A backup is no source for the settings that name it so. -/
lemma not_selects_pathOf (b : BatchSettings) (ends : p.EndsInName) (ne : b.backupSuffix ≠ [])
    (sep : '/' ∉ b.backupSuffix) :
    (SourceQuery.ofSettings b).selects (pathOf b.backupSuffix p) = false := by
  obtain ⟨d, n, rfl, nm⟩ := ends.join
  rw [Bool.eq_false_iff]
  intro selected
  rw [pathOf, Path.append_join] at selected
  exact SourceQuery.not_suffix_of_selects selected (Path.fileName?_join (nm.append ne sep))
    b.backupSuffix_mem_nonSourceSuffixes (List.suffix_append _ _)

/-- A backup is in the directory of its source. -/
lemma parent?_pathOf (ends : p.EndsInName) (ne : s ≠ []) (sep : '/' ∉ s) :
    (pathOf s p).parent? = p.parent? ∧ p.parent?.isSome = true := by
  obtain ⟨d, n, rfl, nm⟩ := ends.join
  rw [pathOf, Path.append_join]
  exact ⟨Path.parent?_join_congr d (nm.append ne sep) nm, Path.isSome_parent?_join d nm⟩

/-- Under settings that are accepted, the backup of a path that ends in a name is another entry of the same
directory and never a source, and the source of the backup is the path again. Different paths have different
backups. Every path that ends in a name and has a source is the backup of that source. -/
theorem backup_names {b : BatchSettings} (accepted : b.check = .ok ()) :
    (∀ p : Path, p.EndsInName →
      ((pathOf b.backupSuffix p).parent? = p.parent? ∧ p.parent?.isSome = true) ∧
      (pathOf b.backupSuffix p).components ≠ p.components ∧
      (SourceQuery.ofSettings b).selects (pathOf b.backupSuffix p) = false ∧
      ∃ o, sourceOf? b.backupSuffix (pathOf b.backupSuffix p) = some o ∧
        o.components = p.components) ∧
    (∀ p q : Path, p.EndsInName → q.EndsInName →
      (pathOf b.backupSuffix p).components = (pathOf b.backupSuffix q).components →
      p.components = q.components) ∧
    ∀ p q : Path, p.EndsInName → sourceOf? b.backupSuffix p = some q →
      (pathOf b.backupSuffix q).components = p.components := by
  obtain ⟨ne, ⟨sep, _⟩, _⟩ := BatchSettings.check_eq_ok.1 accepted
  refine ⟨fun p ends => ?_, fun p q ends ends' => components_of_pathOf ends ends' ne sep,
    fun p q => components_pathOf_sourceOf?⟩
  exact ⟨parent?_pathOf ends ne sep, components_pathOf_ne ends ne sep,
    not_selects_pathOf b ends ne sep, components_sourceOf?_pathOf ends ne sep⟩

/-- With a suffix that is the extension of sources: a path with parts that say nothing, and a backup whose
source would be a dot. -/
theorem backup_names_dots :
    (BatchSettings.check { backupSuffix := ".cs" } = .ok () ∧ Path.EndsInName ⟨"./d//./a.cs".toList⟩ ∧
      Path.EndsInName ⟨"./d/a.cs".toList⟩ ∧ Path.EndsInName ⟨"d/..cs".toList⟩) ∧
    Path.components ⟨"./d//./a.cs".toList⟩ = Path.components ⟨"./d/a.cs".toList⟩ ∧
    (pathOf ".cs" ⟨"./d//./a.cs".toList⟩).components ≠ Path.components ⟨"./d//./a.cs".toList⟩ ∧
    (∃ o, sourceOf? ".cs" (pathOf ".cs" ⟨"./d//./a.cs".toList⟩) = some o ∧
      o.components = Path.components ⟨"./d//./a.cs".toList⟩) ∧
    sourceOf? ".cs" ⟨"d/..cs".toList⟩ = some ⟨"d/.".toList⟩ ∧
    (pathOf ".cs" ⟨"d/.".toList⟩).components = Path.components ⟨"d/..cs".toList⟩ := by
  have accepted : BatchSettings.check { backupSuffix := ".cs" } = .ok () := by decide
  have ends : Path.EndsInName ⟨"./d//./a.cs".toList⟩ := by decide
  have ends' : Path.EndsInName ⟨"./d/a.cs".toList⟩ := by decide
  have ends'' : Path.EndsInName ⟨"d/..cs".toList⟩ := by decide
  have same : (pathOf ".cs" ⟨"./d//./a.cs".toList⟩).components =
      (pathOf ".cs" ⟨"./d/a.cs".toList⟩).components := by decide
  have source : sourceOf? ".cs" ⟨"d/..cs".toList⟩ = some ⟨"d/.".toList⟩ := by decide
  obtain ⟨there, once, back⟩ := backup_names accepted
  obtain ⟨_, other, _, again⟩ := there _ ends
  exact ⟨⟨accepted, ends, ends', ends''⟩, once _ _ ends ends' same, other, again, source, back _ _ ends'' source⟩

end Backup

end Mender
