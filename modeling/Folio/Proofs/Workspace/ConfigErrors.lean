import Folio.Proofs.Output.Faults
import Folio.Proofs.Workspace.Sources

/-!
# Complaints about the configuration

A build of a workspace complains about its configuration before it touches a file: either
the declaration cannot be used, or a space is asked for that is not declared.  The latter
happens whenever one of the names is unknown, at whatever position, and the first such name
is the one that is reported.  Once the spaces are chosen, a build can fail only as building
does.
-/

namespace Folio

open Folio.Action Text

namespace SpaceConfig

/-- The names of the spaces of a workspace. -/
def names (c : SpaceConfig) : List String :=
  c.spaces.map (·.name)

/-- The complaint that no space has a name. -/
def unknown (c : SpaceConfig) (name : String) : Failure :=
  let known := ", ".intercalate c.names
  .config ("Unknown space " ++ quoted name ++ s!" (known: {known})")

variable {c : SpaceConfig} {name : String} {names : List String}

end SpaceConfig

/-! ## How the build of a workspace stops -/

variable {here workspace : Path} {names : List String} {titleSuffix : String}

/-- Why the build of a workspace failed, and in which session: the configuration could not
be loaded, a name is unknown, or the building itself went wrong. -/
inductive Stopped (here workspace : Path) (names : List String) (s : Session) (e : Failure)
    (s' : Session) : Prop
  | unloaded (hload : (loadSpaces here workspace).outcome s.files = .error e)
      (hfiles : s'.files = s.files)
  | unknown {c : SpaceConfig} (hload : (loadSpaces here workspace).run.run s = (.ok c, s'))
      (houtcome : (loadSpaces here workspace).outcome s.files = .ok c)
      (hchosen : chosenSpaces c names = .error e) (hfiles : s'.files = s.files)
  | building {c : SpaceConfig} {targets : List Space}
      (houtcome : (loadSpaces here workspace).outcome s.files = .ok c)
      (hchosen : chosenSpaces c names = .ok targets) (he : e.OfBuilding)

section

variable {s s' : Session} {c : SpaceConfig} {e : Failure}

end

end Folio
