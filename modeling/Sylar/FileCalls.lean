import Sylar.MoveTree
import Sylar.OpenFile
import Sylar.Lib.Runs

/-!
Runs of the calls of `FSUtil` that change what is there, `Symlink` among them.
-/

namespace Sylar.FileCalls

open Lib.Runs Sylar.FileSystem Sylar.PathWalk Sylar.PathCalls Sylar.RemoveTree Sylar.MoveTree
open Sylar.OpenFile (touch)

section Model

-- `links` tells where the process may make a link
variable (k : Kernel) (pr : Process) (links : Place → Bool)

/-- What is walked behind a link in the directory `d` with the text. -/
def content (text : Path) (d : Place) : Place :=
  (if text.head? = some '/' then [] else d) ++ steps text

/-- `symlink(text, path)`, and whether it returns 0. The name has to be free, in a directory. -/
def symlink (fs : Fs) (text path : Path) : Bool × Fs :=
  match (names path).getLast?, pr.dirOf fs path with
  | some n, some d =>
    if h : (links (d ++ [n]) = true ∧ text ≠ [] ∧ ¬Slashed path) ∧ fs.IsDir d ∧ ¬dot n ∧
        fs.obj (d ++ [n]) = none then
      (true, touch fs d n ⟨.lnk (content text d), 0o777, pr.ino fs⟩ h.2.1 h.2.2.1 h.2.2.2)
    else (false, fs)
  | _, _ => (false, fs)

/-- `FSUtil::Symlink(text, path)`, which returns what `symlink` returns, as a `bool`. -/
def FSUtil.Symlink (fs : Fs) (text path : Path) : Option (Bool × Fs) :=
  (RemoveTree.FSUtil.Rm k pr fs path).map fun r =>
    if r.1 then
      let s := symlink pr links r.2 text path
      (!s.1, s.2)
    else (false, r.2)

inductive Call
  | rm (path : Path)
  | unlink (filename : Path) (exist : Bool)
  | mv (src dst : Path)
  | symlink (text path : Path)

def Call.args : Call → List Path
  | rm p | unlink p _ | symlink _ p => [p]
  | mv src dst => [src, dst]

def call (fs : Fs) : Call → Option (Bool × Fs)
  | .rm path => RemoveTree.FSUtil.Rm k pr fs path
  | .unlink filename exist => some (RemoveTree.FSUtil.Unlink k pr fs filename exist)
  | .mv src dst => MoveTree.FSUtil.Mv k pr fs src dst
  | .symlink text path => FSUtil.Symlink k pr links fs text path

def step (fs : Fs) (c : Call) : Option Fs := (call k pr links fs c).map Prod.snd

end Model

variable {k : Kernel} {pr : Process} {links : Place → Bool} {fs fs' : Fs}
  {path text src dst : Path} {p q : Place}

/-! ### One call -/

/-- A link that is made, and a false. -/
example : (FSUtil.Symlink allowed user (fun _ => true) taken.toFs "to".toList "link".toList).map
    (fun r => (r.1, (r.2.obj ["link".toList]).map Obj.kind)) =
      some (false, some (.lnk ["to".toList])) := by decide

/-! ### Runs -/

end Sylar.FileCalls
