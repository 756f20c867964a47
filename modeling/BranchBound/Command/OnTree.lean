import BranchBound.Command.Run
import BranchBound.Files.Tree

/-!
# The command on a file tree

The whole command as a function of its arguments and of the files around it:
`runOn` gives what is printed, the exit code and the files after it.
-/

namespace BranchBound.Command

/-- Solves and reports, in a tree; the solve takes `elapsedMs`. -/
def solveOn (tree : FileTree) (elapsedMs : Nat) (a : Arguments) : Exit × FileTree :=
  match (work tree.read a).ending a elapsedMs with
  | .exit exit => (exit, tree)
  | .write path text journal =>
    match tree.write path text.toUTF8.toList with
    | .error fault => (written path journal (some fault), tree)
    | .ok delivery =>
      let exit := written path journal none
      match delivery with
      | .stored tree => (exit, tree)
      | .discarded => (exit, tree)
      | .printed => ({ exit with stdout := exit.stdout ++ text }, tree)
      | .printedAsError => ({ exit with stderr := exit.stderr ++ text }, tree)

def runOn (tree : FileTree) (elapsedMs : Nat) (arguments : List String) : Exit × FileTree :=
  match read arguments with
  | .error fault => (refused fault, tree)
  | .ok .version => (versionExit, tree)
  | .ok .usage => (usageExit, tree)
  | .ok (.solve a) => solveOn tree elapsedMs a

end BranchBound.Command
