import NoMiddle.Library.Program
import NoMiddle.Library.Paths
import NoMiddle.Crypto

/-! The files a node reads and writes outside its database: those of the web client and its
private key. A stream is opened with a C string, so a path ends at its first NUL. -/
namespace NoMiddle.Disk
open Library Text Crypto

inductive FileOp where
  | openIn (path : Str)
  | read (path : Str) (size : Option Nat)
  | openOut (path : Str)
  | write (path data : Str)
  | close (path : Str)
  | chmod (path : Str)
  | cryptoBoxKeypair

abbrev FileOp.Res : FileOp → Type
  | openIn _ | openOut _ | write .. => Bool
  | read .. => Str
  | close _ | chmod _ => Unit
  | cryptoBoxKeypair => KeyPair

abbrev fileSig : Sig := ⟨FileOp, FileOp.Res⟩
abbrev FileProc := Program fileSig

def perform (operation : FileOp) : FileProc operation.Res := Program.perform (S := fileSig) operation

/-- `std::ifstream file(path)`, and whether it is open. -/
def openIn (path : Str) : FileProc Bool := perform (.openIn (cstr path))

def readFile (basePath requestedPath : Str) : FileProc Str := do
  if str ".." <:+: requestedPath then return []
  let fullPath := basePath ++ str "/" ++ requestedPath
  if !(← openIn fullPath) then return []
  perform (.read (cstr fullPath) none)

/-- Only files below the directory are opened, and none is written. -/
def below (base : Str) : FileOp → Bool
  | .openIn path | .read path _ => decide (Paths.Confined base path)
  | _ => false

theorem cstr_append {front : Str} (clean : Clean front) (back : Str) :
    cstr (front ++ back) = front ++ cstr back := by
  refine List.takeWhile_append_of_pos fun char member => ?_
  simpa using ne_of_mem_of_not_mem member clean

/-- Whatever the request asks for, the files it gets at are those of the web client. -/
theorem readFile_below (requestedPath : Str) :
    (readFile (str "web") requestedPath).Only (below (str "web")) := by
  unfold readFile
  split
  · trivial
  · next dotless =>
    have cut : cstr (str "web" ++ str "/" ++ requestedPath) =
        str "web" ++ Paths.slash :: cstr requestedPath := cstr_append (by decide) requestedPath
    have dotless : ¬[Paths.dot, Paths.dot] <:+: cstr requestedPath :=
      fun there => dotless (there.trans (List.takeWhile_prefix _).isInfix)
    have confined : Paths.Confined (str "web") (cstr (str "web" ++ str "/" ++ requestedPath)) := by
      rw [cut]
      exact Paths.confined_of_dotless (by decide) (by decide) (by decide) (by decide) dotless
    refine ⟨decide_eq_true confined, fun opened => ?_⟩
    cases opened with
    | false => trivial
    | true => exact ⟨decide_eq_true confined, fun _ => trivial⟩

end NoMiddle.Disk
