import Mender.Proofs.FailedFiles
import Mender.Proofs.FileTree.Refiling

/-!
# The round trip of a backup

A backup is made where nothing was, as a regular file with the bytes that its source is read with, and no
other place of the tree changes (`made_of_ensure`). From then on the file behind the source's path may be
overwritten through whatever path leads to it (`Overwritten`): that changes one location only, which is not
that of the backup. So restoring the source gives back the tree as it was when the backup was made
(`ensure_round_trip`).
-/

namespace Mender

namespace FileTree

/-- Where parts led to a free name they lead to the file that was put there. -/
lemma follow_put_of_vacant {tree : FileTree} {purpose links parts dir l} (b : ByteArray)
    (h : tree.follow purpose links parts dir = .ok (.vacant l)) :
    (tree.put l (.file b)).follow purpose links parts dir = .ok (.present l (.file b)) := by
  obtain ⟨free, ne⟩ := get?_of_vacant h
  have keeps : ∀ {k e}, tree.get? k = some e → (tree.put l (.file b)).get? k = some e := by
    intro k e get
    rw [get?_put tree _ _ ne, if_neg, get]
    rintro rfl
    rw [free] at get
    cases get
  -- only the ways on which a vacant place is reached are of interest: the others end otherwise
  fun_induction FileTree.follow tree purpose links parts dir with
  | case2 _ _ _ _ idle ih =>
    rw [FileTree.follow, if_pos idle]
    exact ih h
  | case3 _ _ _ idle ih =>
    rw [FileTree.follow, if_neg idle, if_pos rfl]
    exact ih h
  | case6 _ _ _ idle dots short _ _ make =>
    obtain rfl := Place.vacant.inj (Except.ok.inj h)
    rw [follow_cons (.of_follow idle dots short) make, get?_put tree _ _ ne, if_pos rfl]
    rfl
  | case8 _ _ _ _ idle dots make short _ get ih =>
    rw [follow_cons (.of_follow idle dots short) make, keeps get]
    exact ih h
  | case13 _ _ _ idle dots make short _ _ get last _ ih =>
    rw [follow_cons (.of_follow idle dots short) make, keeps get]
    exact (if_neg last).trans (ih h)
  | _ => simp at h

/-- A file that is created is at the target of its path, and found there without a link. -/
lemma of_create {tree tree' : FileTree} {p : Path} {bytes : ByteArray}
    (made : tree.create p bytes = .ok tree') : ∃ l, tree' = tree.put l (.file bytes) ∧
      tree.get? l = none ∧ tree.target? p = some l ∧ tree'.stat .inspect p = .ok (l, .file bytes) := by
  obtain ⟨l, vacant, rfl⟩ := create_eq_ok_iff.1 made
  obtain ⟨spelling, follow⟩ := resolve_eq_ok.1 vacant
  refine ⟨l, rfl, (get?_of_vacant follow).1, ?_, ?_⟩
  · exact target?_eq_some_iff.2 ⟨_, spelling, follow_of_make follow, rfl⟩
  · exact stat_eq_ok.2 ⟨spelling, follow_put_of_vacant bytes (follow_of_make follow)⟩

/-- The file at a location was written any number of times, each time through a path that led to it. -/
inductive Overwritten (l : Location) (tree : FileTree) : FileTree → Prop where
  | refl : Overwritten l tree tree
  | write {mid later q b bytes} :
    Overwritten l tree mid →
    mid.stat .use q = .ok (l, .file b) →
    mid.write q bytes = .ok later →
    Overwritten l tree later

/-- Writing to a file changes what is at its location. -/
lemma write_of_stat {tree : FileTree} {p l b} (stat : tree.stat .use p = .ok (l, .file b))
    (bytes : ByteArray) : tree.write p bytes = .ok (tree.put l (.file bytes)) := by
  obtain ⟨target, _⟩ := target?_of_stat stat
  obtain ⟨l', target', write⟩ | ⟨none, _⟩ := write_eq tree p bytes
  · obtain rfl := Option.some.inj (target.symm.trans target')
    exact write
  · rw [none] at target
    cases target

/-- However often a file was overwritten, it holds some bytes and the rest of the tree is as it was. -/
lemma Overwritten.eq_put {l : Location} {tree later : FileTree} {b : ByteArray} (ne : l ≠ [])
    (get : tree.get? l = some (.file b)) (writes : Overwritten l tree later) :
    ∃ bytes, later = tree.put l (.file bytes) := by
  induction writes with
  | refl => exact ⟨b, (put_self ne get).symm⟩
  | write _ stat write ih =>
    obtain ⟨_, rfl⟩ := ih
    rw [write_of_stat stat, put_put] at write
    exact ⟨_, (Except.ok.inj write).symm⟩

/-- A path is read when it leads to a file. -/
lemma read_eq_ok_iff {tree : FileTree} {p : Path} {bytes : ByteArray} :
    tree.read p = .ok bytes ↔ ∃ l, tree.stat .use p = .ok (l, .file bytes) := by
  unfold read
  cases tree.stat .use p with
  | error e => simp
  | ok found =>
    obtain ⟨l, e⟩ := found
    cases e <;> simp

/-- A regular file that a path names is the target of the path. -/
lemma target?_of_inspect {tree : FileTree} {p l b} (stat : tree.stat .inspect p = .ok (l, .file b)) :
    tree.target? p = some l := by
  obtain ⟨dir, name, rfl, src⟩ := sourceAt_of_stat stat
  rw [target?, src.resolve_eq, (stat_eq_ok.1 stat).1]
  rfl

end FileTree

namespace Backup

open FileTree (Overwritten Refiled)

variable {suffix : Text} {tree tree' later : FileTree} {p : Path} {l copy : Location} {bytes : ByteArray}

/-- A tree after the backup of a source was made. The file behind the source is at `l`, and the backup at
`copy`. -/
structure Made (suffix : Text) (tree : FileTree) (p : Path) (tree' : FileTree) (l copy : Location)
    (bytes : ByteArray) : Prop where
  /-- Nothing was where the backup is. -/
  missing : tree.stat .inspect (pathOf suffix p) = .error .notFound
  vacant : tree.get? copy = none
  /-- The source's path leads through links to a file with these bytes. -/
  read : tree.read p = .ok bytes
  source : tree.stat .use p = .ok (l, .file bytes)
  source' : tree'.stat .use p = .ok (l, .file bytes)
  /-- The backup is a regular file with the same bytes. -/
  backup : tree'.stat .inspect (pathOf suffix p) = .ok (copy, .file bytes)
  /-- All other places are as they were. -/
  rest : ∀ k, k ≠ copy → tree'.get? k = tree.get? k
  here : tree'.workingDirectory = tree.workingDirectory

/-- A backup that is reported as made is a copy of the source in a tree that is the same otherwise. -/
lemma made_of_ensure (made : ensure suffix tree p = .ok (.made, tree')) :
    ∃ l copy bytes, Made suffix tree p tree' l copy bytes := by
  have ways := ensures suffix tree p
  rw [made] at ways
  cases ways with
  | @made bytes _ _ read create =>
    obtain ⟨l, source⟩ := FileTree.read_eq_ok_iff.1 read
    obtain ⟨target, get⟩ := FileTree.target?_of_stat source
    obtain ⟨copy, rfl, vacant, target', backup⟩ := FileTree.of_create create
    have rest : ∀ k, k ≠ copy → (tree.put copy (.file bytes)).get? k = tree.get? k := fun k away => by
      rw [FileTree.get?_put tree _ _ (FileTree.ne_nil_of_target? target'), if_neg away]
    have away : l ≠ copy := by
      rintro rfl
      rw [get] at vacant
      cases vacant
    have re : Refiled tree (tree.put copy (.file bytes)) := (Refiled.refl tree).put target' bytes
    have source' := FileTree.stat_of_target? ((re.target?_eq p).trans target) ((rest l away).trans get)
    exact ⟨l, copy, bytes, FileTree.stat_of_create create, vacant, read, source, source', backup, rest, rfl⟩

/-- However the file behind the source was overwritten, restoring the source gives back the tree in which the
backup was made. -/
lemma Made.restore_eq (made : Made suffix tree p tree' l copy bytes) (writes : Overwritten l tree' later) :
    restore suffix later p = .ok tree' := by
  obtain ⟨target, get⟩ := FileTree.target?_of_stat made.source'
  have ne := FileTree.ne_nil_of_target? target
  obtain ⟨w, rfl⟩ := writes.eq_put ne get
  have re : Refiled tree' (tree'.put l (.file w)) := (Refiled.refl tree').put target w
  have away : copy ≠ l := by
    rintro rfl
    have get := (FileTree.target?_of_stat made.source).2
    rw [made.vacant] at get
    cases get
  have kept : (tree'.put l (.file w)).get? copy = some (.file bytes) := by
    rw [FileTree.get?_put tree' _ _ ne, if_neg away]
    exact FileTree.get?_of_follow_file (FileTree.stat_eq_ok.1 made.backup).2
  have read := FileTree.read_of_target?
    ((re.target?_eq _).trans (FileTree.target?_of_inspect made.backup)) kept
  have now := FileTree.stat_of_target? ((re.target?_eq p).trans target) (b := w) (by
    rw [FileTree.get?_put tree' _ _ ne, if_pos rfl])
  rw [restore, read]
  dsimp only
  rw [FileTree.write_of_stat now, FileTree.put_put, FileTree.put_self ne get]

/-- A backup that is reported as kept is a file that was there, and the tree is as it was. -/
lemma stat_of_kept (kept : ensure suffix tree p = .ok (.kept, tree')) :
    tree' = tree ∧ ∃ l b, tree.stat .inspect (pathOf suffix p) = .ok (l, .file b) := by
  have ways := ensures suffix tree p
  rw [kept] at ways
  cases ways with
  | kept place =>
    obtain ⟨_, found⟩ | ⟨place', _⟩ | ⟨⟨cause, place'⟩, _⟩ := inPlace_cases tree (pathOf suffix p)
    · exact ⟨rfl, found⟩
    · cases place.symm.trans place'
    · cases place.symm.trans place'

/-- Asking for a backup fails as a backup only. -/
lemma isBackup_of_ensure {f : Failure} (stop : ensure suffix tree p = .error f) : f.isBackup = true := by
  have ways := ensures suffix tree p
  rw [stop] at ways
  cases ways with
  | blocked place =>
    obtain ⟨place', _⟩ | ⟨place', _⟩ | ⟨⟨cause, place'⟩, _⟩ := inPlace_cases tree (pathOf suffix p)
    · cases place.symm.trans place'
    · cases place.symm.trans place'
    · obtain rfl := Except.error.inj (place.symm.trans place')
      rfl
  | unread _ _ => rfl
  | unmade _ _ _ => rfl

/-- A backup that is there is kept. -/
lemma ensure_of_stat (found : tree.stat .inspect (pathOf suffix p) = .ok (l, .file bytes)) :
    ensure suffix tree p = .ok (.kept, tree) := by
  have place : inPlace tree (pathOf suffix p) = .ok true := by rw [inPlace, found]
  unfold ensure
  dsimp only
  rw [place]
  rfl

/-- What asking for a backup comes to. A backup that is made holds the bytes of its source at a place where
nothing was, and nothing else changes; whatever is written to the source's file afterwards, restoring the
source gives back the tree in which the backup was made. A backup that is kept is a regular file. What fails
is the failure of a backup, and a session in which it is asked for stays as it was. Once there is a backup, it
is kept. -/
theorem ensure_round_trip (suffix : Text) (tree : FileTree) (p : Path) :
    (∀ tree', ensure suffix tree p = .ok (.made, tree') →
      ∃ l copy bytes, Made suffix tree p tree' l copy bytes ∧
        ∀ later, Overwritten l tree' later → restore suffix later p = .ok tree') ∧
    (∀ tree', ensure suffix tree p = .ok (.kept, tree') →
      tree' = tree ∧ ∃ l bytes, tree.stat .inspect (pathOf suffix p) = .ok (l, .file bytes)) ∧
    (∀ f, ensure suffix tree p = .error f → f.isBackup = true ∧
      ∀ (r : Recipe) (tally : Tally), r.suffix = suffix → r.mode = .write →
        r.backUp p ⟨tree, tally⟩ = .error f ⟨tree, tally⟩) ∧
    (∀ fate tree', ensure suffix tree p = .ok (fate, tree') →
      ensure suffix tree' p = .ok (.kept, tree')) := by
  refine ⟨fun tree' done => ?_, fun tree' => stat_of_kept, fun f stop => ⟨isBackup_of_ensure stop, ?_⟩,
    fun fate tree' done => ?_⟩
  · obtain ⟨l, copy, bytes, made⟩ := made_of_ensure done
    exact ⟨l, copy, bytes, made, fun later => made.restore_eq⟩
  · rintro r tally rfl mode
    exact Recipe.backUp_eq_error_iff.2 ⟨rfl, mode, stop⟩
  · cases fate with
    | made =>
      obtain ⟨l, copy, bytes, made⟩ := made_of_ensure done
      exact ensure_of_stat made.backup
    | kept =>
      obtain ⟨rfl, _⟩ := stat_of_kept done
      exact done

/-- A source that is a link into a directory. -/
def linkedTree : FileTree :=
  (((FileTree.empty []).put ["d".toList] .directory).put ["d".toList, "b.cs".toList]
    (.file "one".toUTF8)).put ["a.cs".toList] (.link "d/b.cs".toList)

/-- The backup of a link stands beside the link and holds the bytes of the file behind it, and it is kept when it
is asked for again. After the file was written under its own name, restoring the link gives the file its bytes
back. Where a directory stands beside the link, asking for a backup fails. -/
theorem ensure_round_trip_link : ∃ backed later,
    ensure defaultBackupSuffix linkedTree ⟨"a.cs".toList⟩ = .ok (.made, backed) ∧
      ensure defaultBackupSuffix backed ⟨"a.cs".toList⟩ = .ok (.kept, backed) ∧
      backed.write ⟨"d/../d/b.cs".toList⟩ "two".toUTF8 = .ok later ∧
      restore defaultBackupSuffix later ⟨"a.cs".toList⟩ = .ok backed ∧
      ensure defaultBackupSuffix (linkedTree.put ["a.cs.backup_critical".toList] .directory)
        ⟨"a.cs".toList⟩ = .error (.backup (pathOf defaultBackupSuffix ⟨"a.cs".toList⟩) .notRegular) ∧
      (Failure.backup (pathOf defaultBackupSuffix ⟨"a.cs".toList⟩) .notRegular).isBackup = true := by
  have done : ensure defaultBackupSuffix linkedTree ⟨"a.cs".toList⟩ =
      .ok (.made, linkedTree.put ["a.cs.backup_critical".toList] (.file "one".toUTF8)) := by cbv
  have direct : (linkedTree.put ["a.cs.backup_critical".toList] (.file "one".toUTF8)).stat .use
      ⟨"d/../d/b.cs".toList⟩ = .ok (["d".toList, "b.cs".toList], .file "one".toUTF8) := by cbv
  have linked : linkedTree.stat .use ⟨"a.cs".toList⟩ =
      .ok (["d".toList, "b.cs".toList], .file "one".toUTF8) := by cbv
  have stop : ensure defaultBackupSuffix (linkedTree.put ["a.cs.backup_critical".toList] .directory)
      ⟨"a.cs".toList⟩ = .error (.backup (pathOf defaultBackupSuffix ⟨"a.cs".toList⟩) .notRegular) := by cbv
  obtain ⟨made, _, _, again⟩ := ensure_round_trip defaultBackupSuffix linkedTree ⟨"a.cs".toList⟩
  obtain ⟨_, _, failed, _⟩ := ensure_round_trip defaultBackupSuffix
    (linkedTree.put ["a.cs.backup_critical".toList] .directory) ⟨"a.cs".toList⟩
  obtain ⟨l, copy, bytes, facts, back⟩ := made _ done
  obtain ⟨rfl, _⟩ := Prod.mk.inj (Except.ok.inj (linked.symm.trans facts.source))
  have write := FileTree.write_of_stat direct "two".toUTF8
  exact ⟨_, _, done, again _ _ done, write, back _ (.write .refl direct write), stop, (failed _ stop).1⟩

end Backup

end Mender
