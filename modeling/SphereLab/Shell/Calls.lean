import SphereLab.Shell.Execution

/-!
# Calls that a shell stands in for

The programs that a session calls may be shell scripts that lie in the directory.  Here the
shell of this library carries them out, so that a session can be tried without a machine.
-/

namespace SphereLab

namespace Shell

/-- Call a program in a folder of the directory; what it prints is printed on the console. -/
def standIn (folder : Option String) (program : String) (arguments : List String)
    (c : Console Unit) : Outcome × Console Unit :=
  match c.directory.placeFrom c.directory.home (folder.getD ".") with
  | .error _ => (.unstarted StartError.notFound.message, c)
  | .ok place =>
    let s := { State.start c.directory c.bindings with folder := place, printed := c.printed }
    match start s program arguments with
    | .error e => (.unstarted e.message, c)
    | .ok (after, ending) =>
      (if ending.success then .succeeded else .failed ending.message,
        { c with directory := after.directory, printed := after.printed })

end Shell

end SphereLab
