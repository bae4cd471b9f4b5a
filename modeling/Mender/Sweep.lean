import Mender.Sources
import Mender.Mend

/-!
# Sweeps

A sweep mends the sources under a root one after another. A file that fails is reported and the
sweep goes on; only a root that cannot be searched stops it.
-/

namespace Mender

/-- A root with what is looked for under it and how it is mended. -/
structure Sweep where
  root : Path
  query : SourceQuery
  recipe : Recipe
deriving DecidableEq, Repr

namespace Sweep

/-- The sweep that settings ask for, unless they are refused. -/
def ofSettings (s : Settings) (root : Path) (mode : Mode) : Except Failure Sweep :=
  match s.batch.check with
  | .error e => .error (.settings e)
  | .ok () => .ok {
      root
      query := .ofSettings s.batch
      recipe := ⟨s.rules.rules, s.batch.backupSuffix, s.batch.backupTiming, mode⟩ }

/-- Mends one file and reports it, whether it fails or not. -/
def mendFile (w : Sweep) (p : Path) (s : Session) : FileRecord × Session :=
  match (w.recipe.mend p).run { s with tally := s.tally.addScanned } with
  | .ok record s => (record, s)
  | .error f s => (.ofFailure p f, { s with tally := s.tally.addFailure f.isBackup })

/-- Mends files in the given order and shows each one to a watcher once it is done. -/
def mendEachWatched {σ : Type} (w : Sweep) (watch : σ → Path → σ) :
    List Path → Session → σ → List FileRecord × Session × σ
  | [], s, x => ([], s, x)
  | p :: ps, s, x =>
    let (record, s) := w.mendFile p s
    let (records, s, x) := w.mendEachWatched watch ps s (watch x p)
    (record :: records, s, x)

/-- Mends files in the given order, with nobody watching. -/
def mendEach (w : Sweep) (files : List Path) (s : Session) : List FileRecord × Session :=
  let (records, s, _) := w.mendEachWatched (fun _ _ => ()) files s ()
  (records, s)

/-- Mends files in the given order, with counters that start at zero, and shows each one to a
watcher once it is done. -/
def mendAllWatched {σ : Type} (w : Sweep) (watch : σ → Path → σ) (files : List Path)
    (tree : FileTree) (x : σ) : (RunReport × FileTree) × σ :=
  let (records, s, x) := w.mendEachWatched watch files { tree } x
  (({ root := w.root, mode := w.recipe.mode, rules := w.recipe.rules,
      tally := s.tally, files := records }, s.tree), x)

/-- Mends files in the given order, with counters that start at zero and nobody watching. -/
def mendAll (w : Sweep) (files : List Path) (tree : FileTree) : RunReport × FileTree :=
  (w.mendAllWatched (fun _ _ => ()) files tree ()).1

/-- The sources of a sweep. -/
def sources (w : Sweep) (tree : FileTree) : Except Failure (List Path) :=
  w.query.find tree w.root

/-- Finds and mends the sources of a sweep. -/
def run (w : Sweep) (tree : FileTree) : Except Failure (RunReport × FileTree) := do
  return w.mendAll (← w.sources tree) tree

end Sweep

end Mender
