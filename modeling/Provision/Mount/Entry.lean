import Provision.Action
import Provision.Mount.Options

/-!
# Mounted file systems

An entry of the mount table, and whether it is the file system that was asked
for. The table shows canonical paths, so what a path resolves to matters; it is
passed in as a function.

* `MountEntry.satisfies`: the same target and, unless the entry is a bind
  mount, the same source, type and options.
* `MountSpec.linkedPaths`: the paths the comparison may resolve.
-/

namespace Provision

/-- A mounted file system. -/
structure MountEntry where
  source : String
  target : Path
  fstype : String
  options : List String
deriving DecidableEq, Inhabited, Repr

namespace MountEntry

/-- The entry that mounting a file system adds. -/
def ofSpec (spec : MountSpec) : MountEntry :=
  ⟨spec.source, spec.target, spec.fstype, spec.options⟩

/-- The entry in words. -/
def describe (e : MountEntry) : String :=
  e.source ++ " on " ++ e.target.text ++ " type " ++ e.fstype ++ " (" ++
    ",".intercalate e.options ++ ")"

end MountEntry

namespace Mount

/-- What a device may be named by, and the directory of links by that name. -/
def sourceTags : List (String × Path) :=
  [("UUID=", ⟨"/dev/disk/by-uuid"⟩), ("LABEL=", ⟨"/dev/disk/by-label"⟩),
    ("PARTUUID=", ⟨"/dev/disk/by-partuuid"⟩), ("PARTLABEL=", ⟨"/dev/disk/by-partlabel"⟩)]

/-- The path of the device that a source names. -/
def devicePath? (source : String) : Option Path :=
  let tagged := sourceTags.findSome? fun (tag, dir) =>
    if tag.toList.isPrefixOf source.toList then
      some (dir.join (.ofList (source.toList.drop tag.length)))
    else none
  tagged.or (if (Path.mk source).isAbsolute then some ⟨source⟩ else none)

/-- Whether what a path resolves to is another path. -/
def resolvesTo (resolve : Path → Option Path) (p q : Path) : Bool := (resolve p).any (·.same q)

/-- Whether the observed mount point is the requested one. -/
def sameTarget (resolve : Path → Option Path) (observed requested : Path) : Bool :=
  observed.same requested || resolvesTo resolve requested observed

/-- Whether the observed source is the requested one: the same text, or the same
device under another name. -/
def sameSource (resolve : Path → Option Path) (observed requested : String) : Bool :=
  observed == requested ||
    ((devicePath? requested).bind resolve).any fun device =>
      (Path.mk observed).same device || resolvesTo resolve ⟨observed⟩ device

end Mount

/-- Whether this is the file system that was asked for. The kernel adds options
of its own, so every requested option has to be there and others may be. A bind
mount shows the device behind it as its source, so only its target counts. -/
def MountEntry.satisfies (resolve : Path → Option Path) (e : MountEntry) (spec : MountSpec) :
    Bool :=
  Mount.sameTarget resolve e.target spec.target &&
    (spec.isBind ||
      (Mount.sameSource resolve e.source spec.source &&
        (spec.fstype == "auto" || e.fstype == spec.fstype) &&
        (spec.options.filter (!Mount.isUserspace ·)).all fun option =>
          e.options.any (Mount.optionMatches · option)))

/-- The paths that `MountEntry.satisfies` may resolve. -/
def MountSpec.linkedPaths (spec : MountSpec) (e : MountEntry) : List Path :=
  spec.target :: ⟨e.source⟩ :: (Mount.devicePath? spec.source).toList

end Provision
