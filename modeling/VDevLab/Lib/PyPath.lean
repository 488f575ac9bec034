import VDevLab.Lib.PyStr

/-!
# Paths

`str(Path(p))` and `Path(p).stem` of `pathlib` for POSIX paths. A path is
taken apart at its slashes; empty parts and parts that are a single dot are
dropped, and exactly two leading slashes are kept.
-/

namespace PyPath

open PyStr

/-- The leading slashes that are kept. -/
def root (p : PyStr) : PyStr :=
  match p.takeWhile (· = ch '/') with
  | [] => []
  | [_, _] => py "//"
  | _ => py "/"

def parts (p : PyStr) : List PyStr :=
  (p.splitOn (ch '/')).filter fun part => part ≠ [] ∧ part ≠ py "."

/-- `str(Path(p))`. -/
def str (p : PyStr) : PyStr :=
  let s := root p ++ join (py "/") (parts p)
  if s = [] then py "." else s

/-- `Path(p).name`. -/
def name (p : PyStr) : PyStr := (parts p).getLastD []

/-- `Path(p).stem`: the name up to its last dot, unless that dot is its first
or its last character. -/
def stem (p : PyStr) : PyStr :=
  let extension := (name p).reverse.takeWhile (· ≠ ch '.')
  let dot := (name p).length - 1 - extension.length
  if ch '.' ∈ name p ∧ 0 < dot ∧ extension ≠ [] then (name p).take dot else name p

example : (["scenarios//three-eio.yaml", "./.vdevlab", "a/b.tar.gz", "/", "c."].map fun p =>
    (str (py p), stem (py p))) =
    [(py "scenarios/three-eio.yaml", py "three-eio"), (py ".vdevlab", py ".vdevlab"),
      (py "a/b.tar.gz", py "b.tar"), (py "/", []), (py "c.", py "c.")] := by
  decide

/-- The parts are those between the slashes. -/
theorem join_splitOn (p : PyStr) : join (py "/") (p.splitOn (ch '/')) = p :=
  List.intercalate_splitOn (ch '/')

theorem mem_root {p : PyStr} {c : CodePoint} (h : c ∈ root p) : c = ch '/' := by
  unfold root at h
  split at h
  · cases h
  · simpa [py] using h
  · simpa [py] using h

end PyPath
