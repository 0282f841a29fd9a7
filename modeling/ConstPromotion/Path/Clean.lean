import ConstPromotion.Path.Basic

/-!
# Lexical normal form of paths

A path is cleaned by dropping `.` and letting each `..` step up one name. At the root `..` stays
where it is; where nothing is left to step up from, it is kept. Links are not followed, so the
result depends on the spelling alone.
-/

namespace ConstPromotion.Path

/-- Takes one more component; `done` holds the ones before it, last one first. -/
def cleanStep (done : List Component) : Component → List Component
  | .current => done
  | .parent =>
    match done with
    | .name _ :: rest => rest
    | .root :: _ => done
    | _ => .parent :: done
  | c => c :: done

/-- The components of a cleaned path. -/
def cleanComponents (components : List Component) : List Component :=
  (components.foldl cleanStep []).reverse

/-- A path in normal form. -/
def clean (p : Path) : Path := ofComponents (cleanComponents p.components)

/-- The key of a path relative to a root: cleaned, and stripped of the cleaned root if it lies
under it. All spellings of one file below the root have the same key. -/
def keyUnder (root p : Path) : Path := (p.clean.relativeTo? root.clean).getD p.clean

/-- A path as it is shown to somebody who knows `base`. -/
def shownUnder (base p : Path) : String := ((p.relativeTo? base).getD p).toString

end ConstPromotion.Path
