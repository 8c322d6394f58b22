import Mathlib.Data.List.AList

-- install.libs.R: moves the headers and libraries of the build to the directory of the installed
-- package. What base R does is taken from its documentation.
namespace Rlibhv.Install

abbrev Name := String

abbrev Path := List Name

abbrev Contents := List UInt8

inductive Node
  | dir
  | file (c : Contents)
  deriving DecidableEq

abbrev Tree := AList fun _ : Path => Node

-- The directory of the sources, which the build has written to, and the one of the installed package,
-- R_PACKAGE_DIR. Neither lies inside of the other.
structure Fs where
  source  : Tree
  package : Tree

-- How the copy of a file can turn out. Its destination is left alone if it can not be opened, and cut
-- off if writing to it fails.
inductive Copied
  | done
  | failed
  | truncated (n : Nat)
  deriving DecidableEq

-- The pattern of failures: whether there is a directory at the second path after it has been tried to
-- create it for the first one, and how the copy from the first path to the second turns out.
structure Faults where
  dir  : Path → Path → Bool
  copy : Path → Path → Copied

def Faults.none : Faults where
  dir  _ _ := true
  copy _ _ := .done

-- The copy of a file.
structure Copy where
  contents : Contents
  result   : Copied

-- The path of `p` relative to the directory `d`.
def rel? (d p : Path) : Option Path :=
  if d <+: p then p.drop d.length else none

-- The names that the pattern `"*" + ext` matches.
def globs (ext : Name) (n : Name) : Bool :=
  n.toList.head? ≠ some '.' && ext.toList.isSuffixOf n.toList

-- `Sys.glob` of the pattern `"*" + ext` in the directory `d`.
def sysGlob (t : Tree) (d : Path) (ext : Name) : List Name :=
  (t.keys.filterMap fun p => (rel? d p).bind List.head?).dedup.filter (globs ext)

def Node.contents : Node → Option Contents
  | file c => some c
  | dir    => none

def fileAt (t : Tree) (p : Path) : Option Contents :=
  (t.lookup p).bind Node.contents

def write (d : Path) (k : Copy) (t : Tree) : Tree :=
  match k.result with
  | .done        => t.insert d (.file k.contents)
  | .failed      => t
  | .truncated n => t.insert d (.file (k.contents.take n))

def mkdir (d : Path) (t : Tree) : Tree :=
  if (t.lookup d).isNone then t.insert d .dir else t

-- The directories between `src` and the entry at `rel` have been created below `dst`.
def reached (o : Faults) (src dst rel : Path) : Bool :=
  rel.inits.all fun r => r = [] || r = rel || o.dir (src ++ r) (dst ++ r)

-- One call of `do_copy`, which `file.copy` makes for each entry below the files `ns` of `src`.
def doCopy (o : Faults) (src dst : Path) (recursive : Bool) (ns : List Name) (t : Tree) (p : Path)
    (node : Node) : Tree :=
  match rel? src p with
  | some (n :: rest) =>
    let d := dst ++ n :: rest
    if n ∈ ns ∧ (recursive ∨ rest = []) ∧ reached o src dst (n :: rest) then
      match node with
      | .file c => write d ⟨c, o.copy p d⟩ t
      | .dir    => if recursive && o.dir p d then mkdir d t else t
    else t
  | _ => t

-- `dir.create` of `dst` and `file.copy` of the files `ns` of `src` to it. If there is no such directory,
-- then `file.copy` takes `dst` for the name of a file, and raises an error if it is given several.
def fileCopy (o : Faults) (src dst : Path) (recursive : Bool) (ns : List Name) (fs : Fs) :
    Except Fs Fs :=
  if o.dir src dst then
    .ok { fs with
      package := fs.source.entries.foldl
        (fun t e => doCopy o src dst recursive ns t e.fst e.snd) fs.package }
  else
    match ns with
    | []  => .ok fs
    | [n] =>
      let p := src ++ [n]
      let c := (fileAt fs.source p).getD []
      .ok { fs with package := write dst ⟨c, o.copy p dst⟩ fs.package }
    | _   => .error fs

-- `unlink` with recursive = TRUE and force = TRUE.
def unlink (d : Path) (t : Tree) : Tree where
  entries   := t.entries.filter (!d.isPrefixOf ·.fst)
  nodupKeys := t.nodupKeys.sublist List.filter_sublist

inductive Command
  | copy (src : Path) (ext : Name) (dst : Path) (recursive : Bool)
  | unlink (d : Path)

def Command.exec (o : Faults) (fs : Fs) : Command → Except Fs Fs
  | copy src ext dst recursive =>
    let ns := sysGlob fs.source src ext
    if ns = [] then .ok fs else fileCopy o src dst recursive ns fs
  | unlink d => .ok { fs with source := Install.unlink d fs.source }

-- The paths of the installation, below R_PACKAGE_DIR.
structure Env where
  arch      : Path
  dynlibExt : Name

namespace Env

def baseDir : Path :=
  ["inst"]

def includeDir : Path :=
  ["include"]

def libDir (env : Env) : Path :=
  "libs" :: env.arch

-- `src` stands for the pattern `src/*`.
def copyFiles (src destDir : Path) (destSubdir : Path := []) : List Command :=
  [.copy src "" (destDir ++ destSubdir) true]

def copyAndCleanup (baseDir : Path) (component : Name) (destIncludeDir destLibDir : Path) :
    List Command :=
  copyFiles (baseDir ++ [component, "include"]) destIncludeDir [component] ++
  copyFiles (baseDir ++ [component, "lib"]) destLibDir ++
  [.unlink (baseDir ++ [component])]

-- The working directory of the script is `src`.
def script (env : Env) : List Command :=
  -- 1. Copy libhv main headers
  copyFiles (baseDir ++ ["include", "hv"]) includeDir ["hv"] ++
  -- 2. Process c-ares component
  copyAndCleanup baseDir "cares" includeDir env.libDir ++
  -- 3. Process libev component
  copyAndCleanup baseDir "ev" includeDir env.libDir ++
  -- 4. Copy remaining libraries
  copyFiles (baseDir ++ ["lib"]) env.libDir ++
  -- 5. Copy binary tools if they exist
  [.copy ["src", "libhv", "bin"] "" ["bin"] false] ++
  -- 6. Copy the package shared library
  [.copy ["src"] env.dynlibExt env.libDir false] ++
  -- 7. Final cleanup
  [.unlink (baseDir ++ ["lib"])]

end Env

-- The file system when the script has run to its end or stopped.
def outcome : Except Fs Fs → Fs
  | .ok fs | .error fs => fs

def installLibs (env : Env) (o : Faults) (fs : Fs) : Fs :=
  outcome <| env.script.foldlM (Command.exec o) fs

end Rlibhv.Install
