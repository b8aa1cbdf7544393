/-!
# Captured bench lines

While a capture is active the bench lines are kept and can be taken out. Starting a capture drops
what an earlier one has left, and so does ending it.
-/
namespace DocFind

structure Capture where
  active : Bool
  lines : List String
deriving DecidableEq, Repr

namespace Capture

def idle : Capture := ⟨false, []⟩

def start (_ : Capture) : Capture := ⟨true, []⟩

def finish (_ : Capture) : Capture := idle

/-- Keeps a line while active. -/
def write (c : Capture) (line : String) : Capture :=
  if c.active then { c with lines := c.lines ++ [line] } else c

/-- Takes the lines out. -/
def drain (c : Capture) : List String × Capture := (c.lines, { c with lines := [] })

end Capture

end DocFind
