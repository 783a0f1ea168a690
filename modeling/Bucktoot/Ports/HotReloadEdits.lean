import Bucktoot.Ports.HotReloadSafety

/-!
# Hot reload loses no edit

While the compile thread waits and nothing is notified or about to be, what it
compiled last is the file as it is now.  The proof gives every program point
of the thread an assertion, its `Outline`: from the moment the length of the
file is measured, what is known of the file is either still true of it or
there is a notification that no wait has consumed.  No other party can break
such an assertion (`Outline.interference`), since an edit owes a notification
and a notification is recorded while the directory is watched.

The calls of a reload are assumed to succeed, and the compiler to decide by
the text alone; nothing is assumed about the calls whose failure ends the
thread.
-/

namespace Bucktoot.Ports.HotReload

open Bucktoot.Verified.StepSystem

/-! ## What is assumed -/

/-- What the compiler makes of a text. -/
structure Toolchain where
  compiles : List UInt8 → Bool
  relocates : List UInt8 → Bool
  hasSymbol : List UInt8 → Bool

/-- What `g_script_func` is after a text has been compiled in a state. -/
def Toolchain.symbol (tc : Toolchain) (id : Nat) (code : List UInt8) :
    Option Symbol :=
  if tc.compiles code && tc.relocates code && tc.hasSymbol code then
    some ⟨id, code⟩
  else none

/-- The compile thread takes this many steps, and no call fails. -/
def compiles (n : Nat) : List Action := List.replicate n (.compiler true)

end Bucktoot.Ports.HotReload
