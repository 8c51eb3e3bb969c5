/-
A view on the latest findings. A lookup that succeeds replaces them; one that fails leaves them in
place and only has a message. Options and root may change at any time, and the tree is made anew
from them.
-/
import Usages.Tree

namespace Usages

structure View where
  options : DisplayOptions := {}
  root : Option String := none
  latest : Option Findings := none
  deriving Repr, DecidableEq

/-- What to show after a lookup. -/
inductive ViewUpdate where
  | rendered (tree : Tree)
  | info (message : String)
  | failed (message : String)
  deriving Repr, DecidableEq

/-- A failure is shown as information if it is no fault. -/
def ViewUpdate.ofFailure (failure : Failure) : ViewUpdate :=
  if failure.isInformational then .info failure.message else .failed ("Error: " ++ failure.message)

namespace View

/-- The latest findings under the present options and root. -/
def tree (view : View) : Option Tree :=
  view.latest.map fun findings => .ofFindings findings view.options view.root

/-- Take the outcome of a lookup. -/
def apply (view : View) : Except Failure Findings → View × ViewUpdate
  | .ok findings =>
    ({ view with latest := some findings }, .rendered (.ofFindings findings view.options view.root))
  | .error failure => (view, .ofFailure failure)

def setRoot (view : View) (root : Option String) : View :=
  { view with root }

def setOptions (view : View) (options : DisplayOptions) : View :=
  { view with options }

end View

namespace DisplayOptions

def toggleGroupByFile (options : DisplayOptions) : DisplayOptions :=
  { options with groupByFile := !options.groupByFile }

def toggleShowFullPath (options : DisplayOptions) : DisplayOptions :=
  { options with showFullPath := !options.showFullPath }

end DisplayOptions

end Usages
