import ConstPromotion.Inspection.Kind

/-!
# Commands

What a user can ask the program to do. Every command works on the root of a build.
-/

namespace ConstPromotion

/-- How a whole pipeline is run. -/
structure RunOptions where
  /-- Whether declarations are annotated, and the archive is verified. -/
  verify : Bool := false
  /-- The name of the section inspector. -/
  inspector : String := InspectorKind.builtin.name
  /-- Whether the archive of an earlier build is taken. -/
  noBuild : Bool := false
  /-- Whether nothing is written. -/
  dryRun : Bool := false
deriving DecidableEq

/-- Which archive is verified, and how. -/
structure VerifyOptions where
  /-- The archive, unless it is the configured one. -/
  archive : Option String := none
  /-- The name of the section inspector. -/
  inspector : String := InspectorKind.builtin.name
  /-- The section to look for, unless it is the configured one. -/
  sectionName : Option String := none
deriving DecidableEq

/-- What is to be done in the root of a build. -/
inductive Job where
  /-- Promote, build and verify. -/
  | run (options : RunOptions)
  /-- Promote only. -/
  | patch (verify dryRun : Bool)
  /-- List the files that would be looked at. -/
  | select
  /-- Verify an archive that is there. -/
  | verify (options : VerifyOptions)
  /-- Put the backups back. -/
  | restore
  /-- Write the default configuration. -/
  | initConfig (force : Bool)
  /-- Show the configuration in effect. -/
  | showConfig
deriving DecidableEq

/-- A job with the root to do it in. -/
structure Command where
  root : String := "."
  /-- Whether the result is printed as JSON. -/
  json : Bool := false
  job : Job
deriving DecidableEq

end ConstPromotion
